import Scripting.FileError
import Scripting.Path

/-!
Files in memory. Paths are walked from the root or from a working directory, part
by part: each part but the last has to be a directory.
-/

namespace Scripting

/-- Directories and files by their clean paths from the root. -/
structure FileTree where
  directories : List Text
  files : List (Text × Text)

namespace FileTree

inductive Node where
  | directory
  | file (contents : Text)

def nullDevice : Text := Text.utf8 "/dev/null"

def get? (t : FileTree) (path : Text) : Option Node :=
  if t.directories.contains path then some .directory
  else if path = nullDevice then some (.file [])
  else (t.files.find? fun f => f.1 = path).map fun f => .file f.2

def parents (path : Text) : List Text :=
  let parts := path.splitOn Path.slash
  (List.range parts.length).map fun n =>
    Path.clean (Path.slash :: Text.join [Path.slash] (parts.take n))

/-- The tree of some directories and files, with all the directories on the way. -/
def ofFiles (directories : List Text) (files : List (Text × Text)) : FileTree :=
  { directories := directories ++ (directories ++ files.map Prod.fst).flatMap parents
    files }

def nameLimit : Nat := 255

def pathLimit : Nat := 4095

def tooLong : FileError.Reason := .other (Text.utf8 "file name too long")

/-- Walks along the parts of a path. The last one need not be there. -/
def walk (t : FileTree) (path : Text) : List Text → Except FileError.Reason Text
  | [] => .ok path
  | part :: rest =>
    match t.get? path with
    | none => .error .notFound
    | some (.file _) => .error .notDirectory
    | some .directory =>
      if nameLimit < part.length then .error tooLong
      else walk t (Path.clean (path ++ [Path.slash] ++ part)) rest

def resolve (t : FileTree) (directory path : Text) : Except FileError.Reason Text :=
  if path.isEmpty then .error .notFound
  else if path.contains 0 then .error (.other (Text.utf8 "invalid argument"))
  else if pathLimit < path.length then .error tooLong
  else t.walk (if Path.isAbsolute path then [Path.slash] else directory) (path.splitOn Path.slash)

def read (t : FileTree) (directory path : Text) : Except FileError Text :=
  match t.resolve directory path with
  | .error reason => .error ⟨Text.utf8 "open", path, reason⟩
  | .ok place =>
    match t.get? place with
    | none => .error ⟨Text.utf8 "open", path, .notFound⟩
    | some .directory => .error ⟨Text.utf8 "read", path, .isDirectory⟩
    | some (.file contents) => .ok contents

def put (t : FileTree) (path contents : Text) : FileTree :=
  if path = nullDevice then t
  else { t with files := (path, contents) :: t.files.filter fun f => f.1 != path }

/-- The part of a path before its last name, up to a slash. -/
def folder (path : Text) : Text :=
  let named := (path.reverse.dropWhile fun c => c = Path.slash).dropWhile fun c => c != Path.slash
  if named.isEmpty then Text.utf8 "./" else named.reverse

/-- Where a file can be made: in a directory that is there, at a path that is none.
A path with a slash at its end is one. -/
def creatable (t : FileTree) (directory path : Text) : Except FileError.Reason Text :=
  if path.getLast? = some Path.slash && path.length ≤ pathLimit && !path.contains 0 then
    match t.resolve directory (folder path) with
    | .error reason => .error reason
    | .ok _ => .error .isDirectory
  else
    match t.resolve directory path with
    | .error reason => .error reason
    | .ok place =>
      match t.get? place with
      | some .directory => .error .isDirectory
      | _ => .ok place

/-- Makes a file, or replaces what it held. -/
def write (t : FileTree) (directory path contents : Text) : Except FileError FileTree :=
  match t.creatable directory path with
  | .error reason => .error ⟨Text.utf8 "open", path, reason⟩
  | .ok place => .ok (t.put place contents)

end FileTree

end Scripting
