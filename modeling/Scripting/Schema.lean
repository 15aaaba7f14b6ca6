import Scripting.Text.Blank
import Scripting.Text.Case

/-!
Node types of syntax trees, given by one line each, and the Go source that
declares them: an interface, a visitor, and a struct with its accept method for
each type.
-/

namespace Scripting

/-- A node type: its name and its fields, each a name and a type. -/
structure NodeType where
  name : Text
  fields : List Text

namespace NodeType

/-- Reads `Name: field type, field type`. The name must not be empty. -/
def ofText? (t : Text) : Option NodeType :=
  let name := Text.trim (t.takeWhile (· != 0x3A))
  match t.dropWhile (· != 0x3A) with
  | [] => none
  | _ :: fields =>
    if name.isEmpty then none
    else some ⟨name, (Text.splitOn 0x2C (Text.trim fields)).map Text.trim⟩

/-- The name of the struct: the first byte, taken as a character, in lower case. -/
def structName (base : Text) (n : NodeType) : Text :=
  (n.name.take 1).flatMap (fun c => Text.lower (Text.ofCode c.toNat)) ++ n.name.drop 1 ++ base

def alignField (width : Nat) (field : Text) : Text :=
  let name := field.takeWhile (· != 0x20)
  let type := (field.dropWhile (· != 0x20)).drop 1
  if type.isEmpty then field
  else name ++ List.replicate (width - name.length + 1) 0x20 ++ type

def aligned (n : NodeType) : NodeType :=
  let width := (n.fields.map fun f => (f.takeWhile (· != 0x20)).length).foldl max 0
  { n with fields := n.fields.map (alignField width) }

def declaration (base : Text) (n : NodeType) : Text :=
  let visitor := base.lower ++ Text.utf8 "Visitor"
  Text.utf8 "type " ++ n.structName base ++ Text.utf8 " struct \x7b\n" ++
    n.fields.flatMap (fun field => Text.utf8 "\t" ++ field ++ Text.utf8 "\n") ++
    Text.utf8 "\x7d\n\nfunc (s *" ++ n.structName base ++ Text.utf8 ") accept(visitor " ++
    visitor ++ Text.utf8 ") R \x7b\n\treturn visitor.visit" ++ n.name ++ base ++
    Text.utf8 "(s)\n\x7d\n\n"

end NodeType

namespace Schema

def render (base : Text) (types : List NodeType) : Text :=
  let lower := base.lower
  Text.utf8 "// Code generated by cmd/ast. DO NOT EDIT.\n\npackage internal\n\ntype " ++ lower ++
    Text.utf8 " interface \x7b\n\taccept(" ++ lower ++ Text.utf8 "Visitor) R\n\x7d\n\ntype " ++
    lower ++ Text.utf8 "Visitor interface \x7b\n" ++
    types.flatMap (fun n =>
      Text.utf8 "\tvisit" ++ n.name ++ base ++ Text.utf8 "(" ++ lower ++ Text.utf8 " *" ++
        n.structName base ++ Text.utf8 ") R\n") ++
    Text.utf8 "\x7d\n\n" ++ types.flatMap (NodeType.declaration base)

/-- The source for node types given as lines, if each can be read. -/
def generate? (base : Text) (lines : List Text) : Option Text :=
  (lines.mapM NodeType.ofText?).map (render base)

/-- The source in its customary layout: fields in columns and one line break at
the end. -/
def format (base : Text) (types : List NodeType) : Text :=
  (render base (types.map NodeType.aligned)).dropSuffix (Text.utf8 "\n")

def bases : List (Text × List String) :=
  [(Text.utf8 "Stmt", [
      "Program: body []stmt",
      "Expr: expression expr",
      "Var: keyword *token, name *token, dataType string, constant bool, initializer expr",
      "Func: name *token, params []*token, body []stmt",
      "If: keyword *token, condition expr, thenBranch []stmt, elifs []*elifBranch, " ++
        "elseBranch []stmt"]),
    (Text.utf8 "Expr", [
      "Assign: assignee expr, equal *token, value expr",
      "Binary: left expr, operator *token, right expr",
      "Call: callee expr, paren *token, arguments []expr",
      "Member: object expr, property expr, computed bool, dot *token",
      "Identifier: name *token",
      "Numeric: value float64",
      "String: value string",
      "Boolean: value bool",
      "Object: properties []*propertyExpr, brace *token",
      "Property: key *token, value expr"])]

def ofBase? (base : Text) : Option Text :=
  (bases.find? fun b => b.1 = base).map fun b =>
    format base (b.2.filterMap fun line => NodeType.ofText? (Text.utf8 line))

end Schema

end Scripting
