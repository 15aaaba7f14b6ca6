import Scripting.Token

/-!
What can be wrong with the text of a program, and how it is told.
-/

namespace Scripting

inductive ParseError.Cause where
  | illegalCharacter
  | unclosedQuote
  | invalidNumber
  | unexpectedToken
  | unclosedParen
  | unclosedArguments
  | unclosedBracket
  | unclosedObject
  | expectedOpenParen
  | expectedColon
  | expectedComma
  | expectedKey
  | expectedProperty
  | expectedIdentifier
  | expectedEquals
  | expectedSemicolon
  | constantWithoutValue
  | expectedQuote
  | expectedNumber
  | expectedBoolean
  | expectedFunctionName
  | expectedParameter
  | expectedFunctionBody
  | unclosedFunctionBody
  | expectedCondition
  | missingCondition
  | expectedBlock
  | emptyBlock
  | unclosedBlock
  deriving DecidableEq

def ParseError.Cause.text : ParseError.Cause → Text
  | illegalCharacter => Text.utf8 "Illegal character"
  | unclosedQuote => Text.utf8 "Closing \" was expected"
  | invalidNumber => Text.utf8 "Invalid number literal"
  | unexpectedToken => Text.utf8 "Unexpected token found during parsing"
  | unclosedParen => Text.utf8 "Expected ')' after expression"
  | unclosedArguments => Text.utf8 "Missing closing parenthesis inside arguments list"
  | unclosedBracket => Text.utf8 "Missing closing bracket in computed value"
  | unclosedObject => Text.utf8 "Object literal missing closing brace"
  | expectedOpenParen => Text.utf8 "Expected open parenthesis"
  | expectedColon => Text.utf8 "Missing colon following identifier in object literal"
  | expectedComma => Text.utf8 "Expected comma or closing brace following property"
  | expectedKey => Text.utf8 "Object literal key expected"
  | expectedProperty =>
    Text.utf8 "Cannot use dot operator without right hand side being an identifier"
  | expectedIdentifier => Text.utf8 "Expected identifier name following let | const keywords"
  | expectedEquals => Text.utf8 "Expected equals token following identifier in var declaration"
  | expectedSemicolon => Text.utf8 "Variable declaration statement must end with semicolon"
  | constantWithoutValue =>
    Text.utf8 "Must assign value to constant expression, no value provided"
  | expectedQuote => Text.utf8 "Expected quotation token after assignment of string data type"
  | expectedNumber => Text.utf8 "Expected number after assignment of int data type"
  | expectedBoolean => Text.utf8 "Boolean value must be true or false"
  | expectedFunctionName => Text.utf8 "Expected function name following func declaration keyword"
  | expectedParameter =>
    Text.utf8 "Inside function declaration expected parameters to be identifiers"
  | expectedFunctionBody => Text.utf8 "Expected function body following function declaration"
  | unclosedFunctionBody => Text.utf8 "Closing brace expected inside function declaration"
  | expectedCondition => Text.utf8 "Must enclose condition in parentheses"
  | missingCondition => Text.utf8 "Missing conditional statement"
  | expectedBlock => Text.utf8 "Missing curly brace to define block body"
  | emptyBlock => Text.utf8 "Missing block body"
  | unclosedBlock => Text.utf8 "Missing closing curly brace for block statement"

inductive ParseError.Near where
  | nothing
  | source (text : Text)
  | token (t : Token)
  | endOfInput
  deriving DecidableEq

def ParseError.Near.text : ParseError.Near → Text
  | nothing => []
  | source text => text
  | token t => t.describe
  | endOfInput => Token.endText

/-- A fault in a source text: where it is, what it is, and what stands there. -/
structure ParseError where
  line : Nat
  cause : ParseError.Cause
  near : ParseError.Near
  deriving DecidableEq

namespace ParseError

/-- The message of an error: its line, its cause and, if something stands there,
what that is. -/
def message (e : ParseError) : Text :=
  Text.utf8 "Parse error on line " ++ Text.ofNat e.line ++ Text.utf8 ": " ++ e.cause.text ++
    if e.near.text.isEmpty then [] else Text.utf8 ", near " ++ e.near.text

/-- Whether an error is due to the source ending too early, so that more text may
mend it. -/
def isIncomplete (e : ParseError) : Bool :=
  e.cause = .unclosedQuote || e.near = .endOfInput

end ParseError

end Scripting
