import Scripting.Number
import Scripting.ParseError

/-!
A source is cut into pieces without loss: tokens, blanks, comments and illegal
bytes. The tokens and the lexical errors of a source are read off its pieces.
Between two quotes there are only words and blanks; outside them a piece is as
long as its class allows.
-/

namespace Scripting

inductive Piece.Role where
  | blank
  | comment
  | illegal
  | token (kind : Token.Kind)
  deriving DecidableEq

structure Piece where
  role : Piece.Role
  text : Text
  line : Nat
  deriving DecidableEq

namespace Piece

def quoteByte : UInt8 := 0x22
def newline : UInt8 := 0x0A
def hash : UInt8 := 0x23
def point : UInt8 := 0x2E

/-- Space, tab, carriage return and line feed. -/
def isBlank (c : UInt8) : Bool := c = 0x20 || c = 0x09 || c = 0x0D || c = newline

def isLetter (c : UInt8) : Bool :=
  (0x61 ≤ c && c ≤ 0x7A) || (0x41 ≤ c && c ≤ 0x5A) || c = 0x5F

def isNameByte (c : UInt8) : Bool := isLetter c || Number.isDigit c

def isWordByte (c : UInt8) : Bool := !isBlank c && c != quoteByte

/-- The tokens of one byte, quotes apart. -/
def punctuation? : UInt8 → Option Token.Kind
  | 0x28 => some .leftParen
  | 0x29 => some .rightParen
  | 0x5B => some .leftBracket
  | 0x5D => some .rightBracket
  | 0x7B => some .leftBrace
  | 0x7D => some .rightBrace
  | 0x2C => some .comma
  | 0x2E => some .dot
  | 0x3A => some .colon
  | 0x3B => some .semicolon
  | 0x3D => some .equal
  | 0x2B | 0x2D | 0x2A | 0x2F | 0x25 => some .operator
  | _ => none

/-- The kind of a name: a keyword or an identifier. -/
def nameKind (name : Text) : Token.Kind :=
  if name = Text.utf8 "let" then .letKeyword
  else if name = Text.utf8 "const" then .constKeyword
  else if name = Text.utf8 "func" then .funcKeyword
  else if name = Text.utf8 "if" then .ifKeyword
  else if name = Text.utf8 "elif" then .elifKeyword
  else if name = Text.utf8 "else" then .elseKeyword
  else .identifier

/-- How many bytes at the front of a text satisfy a test. -/
def run (test : UInt8 → Bool) (t : Text) : Nat := (t.takeWhile test).length

/-- How many bytes after its first digit belong to a number. A point belongs to
it only if a digit follows. -/
def numberRun (rest : Text) : Nat :=
  let whole := run Number.isDigit rest
  match rest.drop whole with
  | c :: d :: more =>
    if c = point && Number.isDigit d then whole + 2 + run Number.isDigit more else whole
  | _ => whole

/-- The role of the piece that starts with `c`, and how many bytes of `rest`
belong to it. -/
def first (quoted : Bool) (c : UInt8) (rest : Text) : Role × Nat :=
  if c = quoteByte then (.token .quote, 0)
  else if isBlank c then (.blank, 0)
  else if quoted then (.token .word, run isWordByte rest)
  else match punctuation? c with
    | some kind => (.token kind, 0)
    | none =>
      if c = hash then (.comment, run (· != newline) rest)
      else if Number.isDigit c then (.token .number, numberRun rest)
      else if isLetter c then
        (.token (nameKind (c :: rest.takeWhile isNameByte)), run isNameByte rest)
      else (.illegal, 0)

/-- The pieces of a text that starts on `line`, inside quotes or not. -/
def pieces (quoted : Bool) (line : Nat) : Text → List Piece
  | [] => []
  | c :: rest =>
    let (role, length) := first quoted c rest
    ⟨role, c :: rest.take length, line⟩ ::
      pieces (quoted != (role = .token .quote)) (if c = newline then line + 1 else line)
        (rest.drop length)
termination_by t => t.length
decreasing_by simp only [List.length_drop, List.length_cons]; omega

def token? (p : Piece) : Option Token :=
  match p.role with
  | .token kind => some ⟨kind, p.text, p.line⟩
  | _ => none

/-- The error that a piece gives rise to: an illegal byte, told as the character
of that code, or a number that is out of range. -/
def error? (p : Piece) : Option ParseError :=
  match p.role with
  | .illegal =>
    some ⟨p.line, .illegalCharacter,
      .source (p.text.flatMap fun c => String.utf8EncodeChar (Char.ofNat c.toNat))⟩
  | .token .number =>
    if (Number.ofLiteral p.text).isFinite then none
    else some ⟨p.line, .invalidNumber, .source p.text⟩
  | _ => none

end Piece

structure Scan where
  tokens : List Token
  endLine : Nat
  errors : List ParseError

namespace Scan

/-- Whether the last quote of a token list is left open. -/
def leavesOpen (tokens : List Token) : Bool :=
  tokens.countP (fun t => t.kind = .quote) % 2 = 1

/-- The scan of a source. A quote that is left open is the last error. -/
def ofSource (source : Text) : Scan :=
  let pieces := Piece.pieces false 1 source
  let tokens := pieces.filterMap Piece.token?
  let endLine := 1 + source.count Piece.newline
  { tokens
    endLine
    errors := pieces.filterMap Piece.error? ++
      if leavesOpen tokens then [⟨endLine, .unclosedQuote, .nothing⟩] else [] }

def withEnd (s : Scan) : List Token := s.tokens ++ [Token.atEnd s.endLine]

end Scan

end Scripting
