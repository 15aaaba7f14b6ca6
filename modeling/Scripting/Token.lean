import Scripting.Text

/-!
Tokens: the smallest meaningful parts of a source, each with its kind, its own
text and the line it starts on.
-/

namespace Scripting

/-- The kinds of token, in the order of their numbers from minus one on. -/
inductive Token.Kind where
  | endOfInput
  | leftParen | rightParen | leftBracket | rightBracket | leftBrace | rightBrace
  | comma | dot | colon | semicolon | equal | quote
  | operator
  | identifier | number | word
  | letKeyword | constKeyword | funcKeyword | ifKeyword | elifKeyword | elseKeyword
  deriving DecidableEq

structure Token where
  kind : Token.Kind
  lexeme : Text
  line : Nat
  deriving DecidableEq

namespace Token

namespace Kind

def name : Kind → Text
  | endOfInput => Text.utf8 "EOF"
  | leftParen => Text.utf8 "("
  | rightParen => Text.utf8 ")"
  | leftBracket => Text.utf8 "["
  | rightBracket => Text.utf8 "]"
  | leftBrace => Text.utf8 "\x7b"
  | rightBrace => Text.utf8 "\x7d"
  | comma => Text.utf8 ","
  | dot => Text.utf8 "."
  | colon => Text.utf8 ":"
  | semicolon => Text.utf8 ";"
  | equal => Text.utf8 "="
  | quote => Text.utf8 "\""
  | operator => Text.utf8 "operator"
  | identifier => Text.utf8 "identifier"
  | number => Text.utf8 "number"
  | word => Text.utf8 "word"
  | letKeyword => Text.utf8 "let"
  | constKeyword => Text.utf8 "const"
  | funcKeyword => Text.utf8 "func"
  | ifKeyword => Text.utf8 "if"
  | elifKeyword => Text.utf8 "elif"
  | elseKeyword => Text.utf8 "else"

/-- All kinds by number; the first one has number minus one. -/
def all : List Kind :=
  [endOfInput, leftParen, rightParen, leftBracket, rightBracket, leftBrace, rightBrace,
    comma, dot, colon, semicolon, equal, quote, operator, identifier, number, word,
    letKeyword, constKeyword, funcKeyword, ifKeyword, elifKeyword, elseKeyword]

/-- The kind of a number, if there is one. -/
def ofNumber? (n : Int) : Option Kind :=
  if 0 ≤ n + 1 then all[(n + 1).toNat]? else none

def nameOfNumber (n : Int) : Text :=
  match ofNumber? n with
  | some kind => kind.name
  | none => Text.utf8 "token(" ++ Text.ofInt n ++ Text.utf8 ")"

end Kind

def endText : Text := Text.utf8 "end of input"

def describe (t : Token) : Text :=
  if t.kind = .endOfInput then endText
  else t.kind.name ++ Text.utf8 " '" ++ t.lexeme ++ Text.utf8 "'"

def atEnd (line : Nat) : Token := ⟨.endOfInput, [], line⟩

end Token

end Scripting
