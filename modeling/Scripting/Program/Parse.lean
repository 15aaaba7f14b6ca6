import Scripting.Token.Piece
import Scripting.Program

/-!
Reading a program from its tokens, by recursive descent. Each reader takes a
token list and gives what it read with the tokens that follow, which are fewer;
every repetition ends for that reason. The first fault ends the whole reading.

Readers that may read nothing get the tree so far and have `length + 1` as their
bound.
-/

namespace Scripting

/-- What was read, and the tokens after it, fewer than `bound`. -/
structure Parsed (α : Type) (bound : Nat) where
  value : α
  rest : List Token
  shorter : rest.length < bound

namespace Parsed

def mono {α : Type} {m n : Nat} (p : Parsed α m) (h : m ≤ n) : Parsed α n :=
  ⟨p.value, p.rest, Nat.lt_of_lt_of_le p.shorter h⟩

end Parsed

namespace Parse

variable (endLine : Nat)

/-- The error that what comes next does not fit. -/
def unfit (cause : ParseError.Cause) : List Token → ParseError
  | [] => ⟨endLine, cause, .endOfInput⟩
  | t :: _ => ⟨t.line, cause, .token t⟩

def nextLine : List Token → Nat
  | [] => endLine
  | t :: _ => t.line

def nextIs (kind : Token.Kind) : List Token → Bool
  | [] => false
  | t :: _ => t.kind = kind

def expect (kind : Token.Kind) (cause : ParseError.Cause) (ts : List Token) :
    Except ParseError (Parsed Token ts.length) :=
  match ts with
  | t :: rest =>
    if t.kind = kind then .ok ⟨t, rest, by simp⟩ else .error (unfit endLine cause (t :: rest))
  | [] => .error (unfit endLine cause [])

def nameOf (t : Token) : Name := ⟨t.lexeme, t.line⟩

/-- The operator of a token, if it is one of those that bind as asked. -/
def operator? (additive : Bool) (t : Token) : Option Operator :=
  if t.kind = .operator then (Operator.ofSymbol? t.lexeme).filter (·.isAdditive == additive)
  else none

def isWord (t : Token) : Bool := t.kind = .word

theorem length_dropWhile_le {α : Type} (p : α → Bool) (l : List α) :
    (l.dropWhile p).length ≤ l.length :=
  (List.dropWhile_suffix p).length_le

mutual

/-- A name, a number, quoted words, or an expression in parentheses. -/
def primary (ts : List Token) : Except ParseError (Parsed Expr ts.length) :=
  match ts with
  | [] => .error (unfit endLine .unexpectedToken [])
  | t :: rest =>
    match t.kind with
    | .identifier => .ok ⟨.name (nameOf t), rest, by simp⟩
    | .number => .ok ⟨.number (Number.ofLiteral t.lexeme), rest, by simp⟩
    | .quote => do
      let words := (rest.takeWhile isWord).map Token.lexeme
      have := length_dropWhile_le isWord rest
      let ⟨_, rest, _⟩ ← expect endLine .quote .unclosedQuote (rest.dropWhile isWord)
      return ⟨.text (Text.join (Text.utf8 " ") words), rest, by simp; omega⟩
    | .leftParen => do
      let ⟨e, rest, _⟩ ← expression rest
      let ⟨_, rest, _⟩ ← expect endLine .rightParen .unclosedParen rest
      return ⟨e, rest, by simp; omega⟩
    | _ => .error (unfit endLine .unexpectedToken (t :: rest))
termination_by 10 * ts.length

def member (ts : List Token) : Except ParseError (Parsed Expr ts.length) := do
  let ⟨object, rest, _⟩ ← primary ts
  return (← memberTail object rest).mono (by omega)
termination_by 10 * ts.length + 1

def memberTail (object : Expr) (ts : List Token) :
    Except ParseError (Parsed Expr (ts.length + 1)) :=
  match ts with
  | [] => .ok ⟨object, [], by simp⟩
  | t :: rest =>
    match t.kind with
    | .dot => do
      let ⟨key, rest, _⟩ ← primary rest
      match key with
      | .name key => return (← memberTail (.member object t.line key) rest).mono (by simp; omega)
      | _ => .error ⟨t.line, .expectedProperty, .nothing⟩
    | .leftBracket => do
      let ⟨key, rest, _⟩ ← expression rest
      let ⟨_, rest, _⟩ ← expect endLine .rightBracket .unclosedBracket rest
      return (← memberTail (.index object t.line key) rest).mono (by simp; omega)
    | _ => .ok ⟨object, t :: rest, by simp⟩
termination_by 10 * ts.length

def callMember (ts : List Token) : Except ParseError (Parsed Expr ts.length) := do
  let ⟨callee, rest, _⟩ ← member ts
  return (← callTail callee rest).mono (by omega)
termination_by 10 * ts.length + 2

def callTail (callee : Expr) (ts : List Token) :
    Except ParseError (Parsed Expr (ts.length + 1)) :=
  if nextIs .leftParen ts then do
    let ⟨(line, arguments), rest, _⟩ ← argumentList ts
    return (← callTail (.call callee line arguments) rest).mono (by omega)
  else .ok ⟨callee, ts, by simp⟩
termination_by 10 * ts.length + 1

/-- Arguments in parentheses, with the line of the opening one. -/
def argumentList (ts : List Token) : Except ParseError (Parsed (Nat × List Expr) ts.length) := do
  let ⟨paren, rest, _⟩ ← expect endLine .leftParen .expectedOpenParen ts
  if nextIs .rightParen rest then
    let ⟨_, rest, _⟩ ← expect endLine .rightParen .unclosedArguments rest
    return ⟨(paren.line, []), rest, by omega⟩
  else
    let ⟨arguments, rest, _⟩ ← expressions rest
    let ⟨_, rest, _⟩ ← expect endLine .rightParen .unclosedArguments rest
    return ⟨(paren.line, arguments), rest, by omega⟩
termination_by 10 * ts.length

/-- One expression or more, with commas between. -/
def expressions (ts : List Token) : Except ParseError (Parsed (List Expr) ts.length) := do
  let ⟨e, rest, _⟩ ← expression ts
  if nextIs .comma rest then
    let ⟨es, rest, _⟩ ← expressions rest.tail
    return ⟨e :: es, rest, by simp at *; omega⟩
  else return ⟨[e], rest, by omega⟩
termination_by 10 * ts.length + 8
decreasing_by all_goals (simp_wf <;> omega)

def product (ts : List Token) : Except ParseError (Parsed Expr ts.length) := do
  let ⟨left, rest, _⟩ ← callMember ts
  return (← productTail left rest).mono (by omega)
termination_by 10 * ts.length + 3

def productTail (left : Expr) (ts : List Token) :
    Except ParseError (Parsed Expr (ts.length + 1)) :=
  match ts with
  | [] => .ok ⟨left, [], by simp⟩
  | t :: rest =>
    match operator? false t with
    | some op => do
      let ⟨right, rest, _⟩ ← callMember rest
      return (← productTail (.binary left op t.line right) rest).mono (by simp; omega)
    | none => .ok ⟨left, t :: rest, by simp⟩
termination_by 10 * ts.length

def sum (ts : List Token) : Except ParseError (Parsed Expr ts.length) := do
  let ⟨left, rest, _⟩ ← product ts
  return (← sumTail left rest).mono (by omega)
termination_by 10 * ts.length + 4

def sumTail (left : Expr) (ts : List Token) : Except ParseError (Parsed Expr (ts.length + 1)) :=
  match ts with
  | [] => .ok ⟨left, [], by simp⟩
  | t :: rest =>
    match operator? true t with
    | some op => do
      let ⟨right, rest, _⟩ ← product rest
      return (← sumTail (.binary left op t.line right) rest).mono (by simp; omega)
    | none => .ok ⟨left, t :: rest, by simp⟩
termination_by 10 * ts.length

/-- An object literal, or a sum. -/
def operand (ts : List Token) : Except ParseError (Parsed Expr ts.length) :=
  match ts with
  | [] => sum []
  | t :: rest =>
    if t.kind = .leftBrace then do
      let ⟨properties, rest, _⟩ ← properties rest
      let ⟨_, rest, _⟩ ← expect endLine .rightBrace .unclosedObject rest
      return ⟨.object properties, rest, by simp; omega⟩
    else sum (t :: rest)
termination_by 10 * ts.length + 5

def properties (ts : List Token) : Except ParseError (Parsed (List Property) (ts.length + 1)) :=
  if ts.isEmpty || nextIs .rightBrace ts then .ok ⟨[], ts, by simp⟩
  else do
    let ⟨key, rest, _⟩ ← expect endLine .identifier .expectedKey ts
    if nextIs .comma rest then
      let ⟨others, rest, _⟩ ← properties rest.tail
      return ⟨.shorthand (nameOf key) :: others, rest, by simp at *; omega⟩
    else if nextIs .rightBrace rest then
      return ⟨[.shorthand (nameOf key)], rest, by omega⟩
    else
      let ⟨_, rest, _⟩ ← expect endLine .colon .expectedColon rest
      let ⟨value, rest, _⟩ ← expression rest
      if nextIs .rightBrace rest then
        return ⟨[.pair (nameOf key) value], rest, by omega⟩
      else
        let ⟨_, rest, _⟩ ← expect endLine .comma .expectedComma rest
        let ⟨others, rest, _⟩ ← properties rest
        return ⟨.pair (nameOf key) value :: others, rest, by omega⟩
termination_by 10 * ts.length + 1
decreasing_by all_goals (simp_wf; omega)

/-- An operand, or an assignment to one. -/
def expression (ts : List Token) : Except ParseError (Parsed Expr ts.length) := do
  let ⟨target, rest, _⟩ ← operand ts
  return (← assignTail target rest).mono (by omega)
termination_by 10 * ts.length + 6

/-- The value that is assigned to a target, if one is. -/
def assignTail (target : Expr) (ts : List Token) :
    Except ParseError (Parsed Expr (ts.length + 1)) :=
  match ts with
  | [] => .ok ⟨target, [], by simp⟩
  | t :: rest =>
    if t.kind = .equal then do
      let ⟨value, rest, _⟩ ← expression rest
      return ⟨.assign target t.line value, rest, by simp; omega⟩
    else .ok ⟨target, t :: rest, by simp⟩
termination_by 10 * ts.length

end

/-- The quoted words of a declaration of type `string`: each word with a space
after it, and a backspace at the end. -/
def typedText (ts : List Token) : Except ParseError (Parsed Expr ts.length) := do
  let ⟨_, rest, _⟩ ← expect endLine .quote .expectedQuote ts
  let isInner (t : Token) : Bool := t.kind != .quote
  let words := (rest.takeWhile isInner).map Token.lexeme
  have := length_dropWhile_le isInner rest
  if (rest.dropWhile isInner).isEmpty then .error ⟨endLine, .unclosedQuote, .nothing⟩
  else return ⟨.text (words.flatMap (· ++ Text.utf8 " ") ++ [0x08]), (rest.dropWhile isInner).tail,
    by simp; omega⟩

def typedNumber (ts : List Token) : Except ParseError (Parsed Expr ts.length) := do
  let ⟨t, rest, _⟩ ← expect endLine .number .expectedNumber ts
  return ⟨.number (Number.ofLiteral t.lexeme), rest, by omega⟩

def typedBoolean (ts : List Token) : Except ParseError (Parsed Expr ts.length) :=
  match ts with
  | [] => .error (unfit endLine .expectedBoolean [])
  | t :: rest =>
    if t.lexeme = Text.utf8 "true" then .ok ⟨.bool true, rest, by simp⟩
    else if t.lexeme = Text.utf8 "false" then .ok ⟨.bool false, rest, by simp⟩
    else .error (unfit endLine .expectedBoolean (t :: rest))

/-- The value of a declaration. Three annotations fix its form. -/
def initializer (type : Option Text) (ts : List Token) :
    Except ParseError (Parsed Expr ts.length) :=
  if type = some (Text.utf8 "string") then typedText endLine ts
  else if type = some (Text.utf8 "int") then typedNumber endLine ts
  else if type = some (Text.utf8 "bool") then typedBoolean endLine ts
  else expression endLine ts

/-- A colon and any one token, or nothing. At the end of the source what lacks is
the value. -/
def declaredType (ts : List Token) : Except ParseError (Parsed (Option Text) (ts.length + 1)) :=
  match ts with
  | [] => .ok ⟨none, [], by simp⟩
  | t :: rest =>
    if t.kind = .colon then
      match rest with
      | [] => .error (unfit endLine .expectedEquals [])
      | type :: rest => .ok ⟨some type.lexeme, rest, by simp; omega⟩
    else .ok ⟨none, t :: rest, by simp⟩

/-- A declaration after its keyword, which stood on `line`. -/
def declaration (constant : Bool) (line : Nat) (ts : List Token) :
    Except ParseError (Parsed Stmt ts.length) := do
  let ⟨name, rest, _⟩ ← expect endLine .identifier .expectedIdentifier ts
  let ⟨type, rest, _⟩ ← declaredType endLine rest
  if nextIs .semicolon rest then
    if constant then .error ⟨line, .constantWithoutValue, .source name.lexeme⟩
    else return ⟨.declare false (nameOf name) type none, rest.tail, by simp; omega⟩
  else
    let ⟨_, rest, _⟩ ← expect endLine .equal .expectedEquals rest
    let ⟨value, rest, _⟩ ← initializer endLine type rest
    let ⟨_, rest, _⟩ ← expect endLine .semicolon .expectedSemicolon rest
    return ⟨.declare constant (nameOf name) type (some value), rest, by omega⟩

/-- The names of a parameter list, if it holds only names. -/
def parameters? : List Expr → Option (List Name)
  | [] => some []
  | .name name :: rest => (parameters? rest).map (name :: ·)
  | _ :: _ => none

def condition (ts : List Token) : Except ParseError (Parsed Expr ts.length) := do
  let ⟨_, rest, _⟩ ← expect endLine .leftParen .expectedCondition ts
  if nextIs .rightParen rest then .error ⟨nextLine endLine rest, .missingCondition, .nothing⟩
  else
    let ⟨e, rest, _⟩ ← expression endLine rest
    let ⟨_, rest, _⟩ ← expect endLine .rightParen .expectedCondition rest
    return ⟨e, rest, by omega⟩

def expressionStatement (ts : List Token) : Except ParseError (Parsed Stmt ts.length) := do
  let ⟨e, rest, _⟩ ← expression endLine ts
  if nextIs .semicolon rest then return ⟨.expr e, rest.tail, by simp; omega⟩
  else return ⟨.expr e, rest, by omega⟩

mutual

def statement (ts : List Token) : Except ParseError (Parsed Stmt ts.length) :=
  match ts with
  | [] => expressionStatement endLine []
  | t :: rest =>
    match t.kind with
    | .letKeyword => return (← declaration endLine false t.line rest).mono (by simp)
    | .constKeyword => return (← declaration endLine true t.line rest).mono (by simp)
    | .funcKeyword => return (← function rest).mono (by simp)
    | .ifKeyword => return (← conditional t.line rest).mono (by simp)
    | _ => expressionStatement endLine (t :: rest)
termination_by 10 * ts.length

def function (ts : List Token) : Except ParseError (Parsed Stmt ts.length) := do
  let ⟨name, rest, _⟩ ← expect endLine .identifier .expectedFunctionName ts
  let ⟨(_, arguments), rest, _⟩ ← argumentList endLine rest
  match parameters? arguments with
  | none => .error ⟨name.line, .expectedParameter, .source name.lexeme⟩
  | some parameters =>
    let ⟨_, rest, _⟩ ← expect endLine .leftBrace .expectedFunctionBody rest
    let ⟨body, rest, _⟩ ← statements true rest
    let ⟨_, rest, _⟩ ← expect endLine .rightBrace .unclosedFunctionBody rest
    return ⟨.func (nameOf name) parameters body, rest, by omega⟩
termination_by 10 * ts.length

/-- A conditional after its keyword, which stood on `line`. -/
def conditional (line : Nat) (ts : List Token) : Except ParseError (Parsed Stmt ts.length) := do
  let ⟨first, rest, _⟩ ← clause ts
  let ⟨others, rest, _⟩ ← clauses rest
  if nextIs .elseKeyword rest then
    let ⟨otherwise, rest, _⟩ ← block rest.tail
    return ⟨.branch line first others otherwise, rest, by simp at *; omega⟩
  else return ⟨.branch line first others [], rest, by omega⟩
termination_by 10 * ts.length + 4
decreasing_by all_goals (simp_wf <;> omega)

def clause (ts : List Token) : Except ParseError (Parsed Clause ts.length) := do
  let ⟨test, rest, _⟩ ← condition endLine ts
  let ⟨body, rest, _⟩ ← block rest
  return ⟨⟨test, body⟩, rest, by omega⟩
termination_by 10 * ts.length + 3

def clauses (ts : List Token) : Except ParseError (Parsed (List Clause) (ts.length + 1)) :=
  match ts with
  | [] => .ok ⟨[], [], by simp⟩
  | t :: rest =>
    if t.kind = .elifKeyword then do
      let ⟨first, rest, _⟩ ← clause rest
      let ⟨others, rest, _⟩ ← clauses rest
      return ⟨first :: others, rest, by simp; omega⟩
    else .ok ⟨[], t :: rest, by simp⟩
termination_by 10 * ts.length

def block (ts : List Token) : Except ParseError (Parsed (List Stmt) ts.length) := do
  let ⟨_, rest, _⟩ ← expect endLine .leftBrace .expectedBlock ts
  if nextIs .rightBrace rest then .error ⟨nextLine endLine rest, .emptyBlock, .nothing⟩
  else
    let ⟨body, rest, _⟩ ← statements true rest
    let ⟨_, rest, _⟩ ← expect endLine .rightBrace .unclosedBlock rest
    return ⟨body, rest, by omega⟩
termination_by 10 * ts.length

/-- Statements up to the end of the source or, if nested, a closing brace. -/
def statements (nested : Bool) (ts : List Token) :
    Except ParseError (Parsed (List Stmt) (ts.length + 1)) :=
  if ts.isEmpty || (nested && nextIs .rightBrace ts) then .ok ⟨[], ts, by simp⟩
  else do
    let ⟨first, rest, _⟩ ← statement ts
    let ⟨others, rest, _⟩ ← statements nested rest
    return ⟨first :: others, rest, by omega⟩
termination_by 10 * ts.length + 1

end

end Parse

def Program.ofTokens (endLine : Nat) (tokens : List Token) : Except ParseError Program :=
  (Parse.statements endLine false tokens).map Parsed.value

/-- The program of a scan. Lexical errors come first, and of several the first. -/
def Program.ofScan (scan : Scan) : Except ParseError Program :=
  match scan.errors with
  | [] => Program.ofTokens scan.endLine scan.tokens
  | e :: _ => .error e

def Program.ofSource (source : Text) : Except ParseError Program :=
  Program.ofScan (Scan.ofSource source)

/-- Whether a source stops parsing only because it ends too early. -/
def Program.isIncomplete (source : Text) : Bool :=
  match Program.ofSource source with
  | .ok _ => false
  | .error e => e.isIncomplete

end Scripting
