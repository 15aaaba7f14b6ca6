import Scripting.Number.Decimal
import Scripting.Text.Quoted
import Scripting.Program

/-!
The outline of a program: its tree in parentheses, one statement a line.
-/

namespace Scripting

mutual

def Expr.outline : Expr → Text
  | .assign target _ value =>
    Text.concat [Text.utf8 "(set ", target.outline, Text.utf8 " ", value.outline, Text.utf8 ")"]
  | .binary left op _ right =>
    Text.concat [Text.utf8 "(", op.symbol, Text.utf8 " ", left.outline, Text.utf8 " ",
      right.outline, Text.utf8 ")"]
  | .call callee _ arguments =>
    Text.concat [Text.utf8 "(call ", callee.outline, Expr.outlineEach arguments, Text.utf8 ")"]
  | .member object _ key =>
    Text.concat [Text.utf8 "(. ", object.outline, Text.utf8 " ", key.text, Text.utf8 ")"]
  | .index object _ key =>
    Text.concat [Text.utf8 "([] ", object.outline, Text.utf8 " ", key.outline, Text.utf8 ")"]
  | .name name => name.text
  | .number value => value.display
  | .text value => value.quote
  | .bool value => Text.utf8 (if value then "(bool true)" else "(bool false)")
  | .object properties =>
    Text.concat [Text.utf8 "(object", Property.outlineEach properties, Text.utf8 ")"]

def Expr.outlineEach : List Expr → Text
  | [] => []
  | e :: rest => Text.concat [Text.utf8 " ", e.outline, Expr.outlineEach rest]

def Property.outline : Property → Text
  | .shorthand key => Text.utf8 "(" ++ key.text ++ Text.utf8 ")"
  | .pair key value =>
    Text.concat [Text.utf8 "(", key.text, Text.utf8 " ", value.outline, Text.utf8 ")"]

def Property.outlineEach : List Property → Text
  | [] => []
  | p :: rest => Text.concat [Text.utf8 " ", p.outline, Property.outlineEach rest]

end

def Stmt.keyword (constant : Bool) : Text := Text.utf8 (if constant then "const" else "let")

mutual

def Stmt.outline : Stmt → Text
  | .expr expression => expression.outline
  | .declare constant name type value =>
    Text.concat [Text.utf8 "(", Stmt.keyword constant, Text.utf8 " ", name.text,
      match type with
        | some type => Text.utf8 ":" ++ type
        | none => [],
      match value with
        | some value => Text.utf8 " " ++ value.outline
        | none => [],
      Text.utf8 ")"]
  | .func name parameters body =>
    Text.concat [Text.utf8 "(func ", name.text, Text.utf8 " (",
      Text.join (Text.utf8 ", ") (parameters.map Name.text), Text.utf8 ")", Stmt.outlineEach body,
      Text.utf8 ")"]
  | .branch _ first others otherwise =>
    Text.concat [Text.utf8 "(if (then ", first.outline, Text.utf8 ")", Clause.outlineEach others,
      if otherwise.isEmpty then []
      else Text.concat [Text.utf8 " (else", Stmt.outlineEach otherwise, Text.utf8 ")"],
      Text.utf8 ")"]

def Stmt.outlineEach : List Stmt → Text
  | [] => []
  | s :: rest => Text.concat [Text.utf8 " ", s.outline, Stmt.outlineEach rest]

def Clause.outline : Clause → Text
  | .mk condition body => condition.outline ++ Stmt.outlineEach body

def Clause.outlineEach : List Clause → Text
  | [] => []
  | c :: rest =>
    Text.concat [Text.utf8 " (elif ", c.outline, Text.utf8 ")", Clause.outlineEach rest]

end

def Program.outline (p : Program) : Text :=
  p.flatMap fun s => s.outline ++ Text.utf8 "\n"

def Program.outlineNode (p : Program) : Text :=
  Text.utf8 "(program" ++ Stmt.outlineEach p ++ Text.utf8 ")"

end Scripting
