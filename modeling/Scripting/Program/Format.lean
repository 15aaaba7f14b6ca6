import Scripting.Number.Decimal
import Scripting.Program.Outline
import Scripting.Text.Blank

/-!
Programs as source text in one fixed layout. Parentheses stand wherever the
reader would otherwise take the text apart in another way, and an expression
statement ends with a semicolon, so that a parenthesis at the start of the next
one is not taken for a call.
-/

namespace Scripting

/-- Whether an expression has to stand in parentheses as an operand. -/
def Expr.isLoose : Expr → Bool
  | .assign .. | .object .. => true
  | _ => false

/-- Whether an expression has to stand in parentheses to have members. -/
def Expr.isOpen : Expr → Bool
  | .assign .. | .object .. | .call .. => true
  | _ => false

/-- A text in parentheses, if it has to be. -/
def Text.parenthesized (needed : Bool) (t : Text) : Text :=
  if needed then Text.concat [Text.utf8 "(", t, Text.utf8 ")"] else t

mutual

def Expr.format : Expr → Text
  | .assign target _ value =>
    Text.concat [Text.parenthesized target.isLoose target.format, Text.utf8 " = ", value.format]
  | .binary left op _ right =>
    Text.concat [Text.utf8 "(", Text.parenthesized left.isLoose left.format, Text.utf8 " ",
      op.symbol, Text.utf8 " ", Text.parenthesized right.isLoose right.format, Text.utf8 ")"]
  | .call callee _ arguments =>
    Text.concat [Text.parenthesized callee.isLoose callee.format, Text.utf8 "(",
      Text.join (Text.utf8 ", ") (Expr.formatEach arguments), Text.utf8 ")"]
  | .member object _ key =>
    Text.concat [Text.parenthesized object.isOpen object.format, Text.utf8 ".", key.text]
  | .index object _ key =>
    Text.concat [Text.parenthesized object.isOpen object.format, Text.utf8 "[", key.format,
      Text.utf8 "]"]
  | .name name => name.text
  | .number value => value.positional
  | .text value => value.inQuotes
  | .bool value => Text.utf8 (if value then "true" else "false")
  | .object [] => Text.utf8 "\x7b\x7d"
  | .object (p :: rest) =>
    Text.concat [Text.utf8 "\x7b ",
      Text.join (Text.utf8 ", ") (p.format :: Property.formatEach rest), Text.utf8 " \x7d"]

def Expr.formatEach : List Expr → List Text
  | [] => []
  | e :: rest => e.format :: Expr.formatEach rest

def Property.format : Property → Text
  | .shorthand key => key.text
  | .pair key value => Text.concat [key.text, Text.utf8 ": ", value.format]

def Property.formatEach : List Property → List Text
  | [] => []
  | p :: rest => p.format :: Property.formatEach rest

end

/-- The value of a declaration. The words of a declared string are written with
one space between them. -/
def Stmt.formatValue (type : Option Text) : Expr → Text
  | .text value =>
    if type = some (Text.utf8 "string") then
      (Text.join (Text.utf8 " ") (value.dropSuffix [0x08]).words).inQuotes
    else (Expr.text value).format
  | value => value.format

def Text.indent (depth : Nat) : Text := List.replicate (4 * depth) 0x20

mutual

def Stmt.format (depth : Nat) : Stmt → Text
  | .expr expression => expression.format ++ Text.utf8 ";"
  | .declare constant name type value =>
    Text.concat [Stmt.keyword constant, Text.utf8 " ", name.text,
      match type with
        | some type => Text.utf8 ": " ++ type
        | none => [],
      match value with
        | some value => Text.utf8 " = " ++ Stmt.formatValue type value
        | none => [],
      Text.utf8 ";"]
  | .func name parameters body =>
    Text.concat [Text.utf8 "func ", name.text, Text.utf8 "(",
      Text.join (Text.utf8 ", ") (parameters.map Name.text), Text.utf8 ") \x7b\n",
      Stmt.formatLines (depth + 1) body, Text.indent depth, Text.utf8 "\x7d"]
  | .branch _ first others otherwise =>
    Text.concat [Text.utf8 "if ", first.format depth, Clause.formatEach depth others,
      if otherwise.isEmpty then []
      else Text.concat [Text.utf8 " else \x7b\n", Stmt.formatLines (depth + 1) otherwise,
        Text.indent depth, Text.utf8 "\x7d"]]

def Stmt.formatLines (depth : Nat) : List Stmt → Text
  | [] => []
  | s :: rest =>
    Text.concat [Text.indent depth, s.format depth, Text.utf8 "\n", Stmt.formatLines depth rest]

def Clause.format (depth : Nat) : Clause → Text
  | .mk condition body =>
    Text.concat [Text.utf8 "(", condition.format, Text.utf8 ") \x7b\n",
      Stmt.formatLines (depth + 1) body, Text.indent depth, Text.utf8 "\x7d"]

def Clause.formatEach (depth : Nat) : List Clause → Text
  | [] => []
  | c :: rest =>
    Text.concat [Text.utf8 " elif ", c.format depth, Clause.formatEach depth rest]

end

def Program.format (p : Program) : Text := Stmt.formatLines 0 p

def Program.formatJoined (p : Program) : Text :=
  Text.join (Text.utf8 "\n") (p.map (Stmt.format 0))

end Scripting
