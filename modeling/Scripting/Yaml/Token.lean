import Scripting.Yaml.Scalar

/-!
The tokens of a document. Indentation becomes tokens of its own: a collection of
lines begins where a line is indented further than those around it, and ends where
one is indented less. Whether a node is the key of an entry shows only at the colon
after it, so the token that announces a key is put before the node afterwards.
-/

namespace Scripting.Yaml

inductive Token where
  /-- The version of the format that the document asks for. -/
  | version (major minor : Nat)
  /-- A shorthand for the beginnings of tags. -/
  | shorthand (handle meaning : String)
  | documentStart
  | documentEnd
  | streamEnd
  | blockList
  | blockMap
  | blockEnd
  | flowList
  | flowListEnd
  | flowMap
  | flowMapEnd
  | dash
  | comma
  | key
  | value
  | alias (name : String)
  | anchor (name : String)
  | tag (handle suffix : String)
  | scalar (text : String) (plain : Bool)
deriving DecidableEq

/-- A node that becomes a key if a colon follows. -/
structure Key where
  /-- The number of tokens before the node. -/
  number : Nat
  /-- Whether nothing but a key may stand there. -/
  required : Bool
  index : Nat
  line : Nat
  column : Nat

/-- The longest key that is recognized by the colon after it. -/
def keyLimit : Nat := 1024

/-- Whether a colon at a place can make the node a key: it has to stand on the same
line and not too far away. -/
def Key.reaches (k : Key) (c : Cursor) : Bool :=
  k.line = c.line && c.index ≤ k.index + keyLimit

def depthLimit : Nat := 10000

structure Scan where
  cursor : Cursor
  tokens : Array Token := #[]
  /-- How far the open collections of lines are indented, the innermost first. -/
  indents : List Nat := []
  /-- The node that may be a key, inside the innermost brackets. -/
  key : Option Key := none
  /-- The nodes that may be keys outside of the brackets, the innermost first. -/
  outer : List (Option Key) := []
  /-- Whether a key may begin at the place. -/
  keyAllowed : Bool := true
  /-- Whether the whole document is cut. -/
  ended : Bool := false

namespace Scan

def bracketed (s : Scan) : Bool := !s.outer.isEmpty

/-- How far what is inside the innermost collection of lines is indented at least. -/
def margin (s : Scan) : Nat :=
  match s.indents with
  | [] => 0
  | indent :: _ => indent + 1

def push (s : Scan) (token : Token) (cursor : Cursor) : Scan :=
  { s with tokens := s.tokens.push token, cursor }

def insert (s : Scan) (number : Nat) (token : Token) : Scan :=
  { s with
    tokens := (s.tokens.extract 0 number).push token ++ s.tokens.extract number s.tokens.size }

def dropKey? (s : Scan) : Option Scan :=
  match s.key with
  | some k => if k.required then none else some { s with key := none }
  | none => some s

def noteKey? (s : Scan) : Option Scan :=
  if s.keyAllowed then do
    let dropped ← s.dropKey?
    let c := s.cursor
    return { dropped with
      key := some {
        number := s.tokens.size
        required := !s.bracketed && s.margin = c.column + 1
        index := c.index
        line := c.line
        column := c.column } }
  else some s

/-- Ends the collections of lines that are indented too far. -/
def closeBlocks (s : Scan) (tooFar : Nat → Bool) : Scan :=
  if s.bracketed then s
  else
    let closed := s.indents.takeWhile tooFar
    { s with
      indents := s.indents.drop closed.length
      tokens := s.tokens ++ (closed.map fun _ => Token.blockEnd).toArray }

def openBlock? (s : Scan) (column number : Nat) (token : Token) : Option Scan :=
  if s.bracketed || column < s.margin then some s
  else if depthLimit ≤ s.indents.length then none
  else some { s.insert number token with indents := column :: s.indents }

def openBracket? (s : Scan) (token : Token) : Option Scan := do
  let noted ← s.noteKey?
  if depthLimit ≤ s.outer.length then none
  else
    return { noted.push token s.cursor.next with
      key := none, outer := noted.key :: noted.outer, keyAllowed := true }

/-- Closes brackets, also where none are open. -/
def closeBracket? (s : Scan) (token : Token) : Option Scan := do
  let dropped ← s.dropKey?
  let closed := match dropped.outer with
    | [] => dropped
    | key :: outer => { dropped with key, outer }
  return { closed.push token s.cursor.next with keyAllowed := false }

def comma? (s : Scan) : Option Scan := do
  let dropped ← s.dropKey?
  return { dropped.push .comma s.cursor.next with keyAllowed := true }

def dash? (s : Scan) : Option Scan := do
  if !s.bracketed && !s.keyAllowed then none
  let opened ← s.openBlock? s.cursor.column s.tokens.size .blockList
  let dropped ← opened.dropKey?
  return { dropped.push .dash s.cursor.next with keyAllowed := true }

def key? (s : Scan) : Option Scan := do
  if !s.bracketed && !s.keyAllowed then none
  let opened ← s.openBlock? s.cursor.column s.tokens.size .blockMap
  let dropped ← opened.dropKey?
  return { dropped.push .key s.cursor.next with keyAllowed := !s.bracketed }

/-- The colon after a key that was announced, or after none. -/
def bareValue? (s : Scan) : Option Scan := do
  if !s.bracketed && !s.keyAllowed then none
  let opened ← s.openBlock? s.cursor.column s.tokens.size .blockMap
  return { opened.push .value s.cursor.next with keyAllowed := !s.bracketed }

def value? (s : Scan) : Option Scan :=
  match s.key with
  | none => s.bareValue?
  | some k =>
    if k.reaches s.cursor then do
      let announced := { s.insert k.number .key with key := none }
      let opened ← announced.openBlock? k.column k.number .blockMap
      return { opened.push .value s.cursor.next with keyAllowed := false }
    else if k.required then none
    else { s with key := none }.bareValue?

def endsName (rest : List Char) : Bool :=
  startsBlank rest || rest.head?.any fun a =>
    ['?', ':', ',', ']', '\x7d', '%', '@', '\x60'].contains a

def name? (c : Cursor) : Option (String × Cursor) :=
  let name := c.rest.takeWhile isWord
  let after := c.skip name.length
  if name.isEmpty || !endsName after.rest then none else some (String.ofList name, after)

/-- A reference to an anchor, or an anchor. -/
def named? (s : Scan) (token : String → Token) : Option Scan := do
  let noted ← s.noteKey?
  let (name, after) ← name? s.cursor.next
  return { noted.push (token name) after with keyAllowed := false }

def isTagCharacter (c : Char) : Bool :=
  isWord c ||
  [';', '/', '?', ':', '@', '&', '=', '+', '$', ',', '.', '!', '~', '*', '\x27', '(', ')', '[',
    ']'].contains c

def octet? : List Char → Option Nat
  | a :: b :: _ => do return 16 * (← hexValue? a) + (← hexValue? b)
  | _ => none

/-- A character whose bytes are written as hexadecimal digits, each after a percent
sign, from after the first sign; and how many characters it takes to say it. -/
def tagEscape? (rest : List Char) : Option (Char × Nat) := do
  let first ← octet? rest
  let (width, bits) ←
    if first < 0x80 then some (1, first)
    else if first / 32 = 6 then some (2, first % 32)
    else if first / 16 = 14 then some (3, first % 16)
    else if first / 8 = 30 then some (4, first % 8)
    else none
  let tail ← (List.range (width - 1)).mapM fun n => do
    let place := rest.drop (3 * n + 2)
    let byte ← octet? (place.drop 1)
    if place.head? = some '%' && byte / 64 = 2 then some byte else none
  return (Char.ofNat (tail.foldl (fun code byte => 64 * code + byte % 64) bits), 3 * width - 1)

def tagText? (c : Cursor) (text : List Char := []) : Option (List Char × Cursor) :=
  match _h : c.rest with
  | [] => some (text.reverse, c)
  | a :: rest =>
    if a = '%' then
      match tagEscape? rest with
      | none => none
      | some (b, count) => tagText? ((c.look 3).next.skip count) (b :: text)
    else if isTagCharacter a then tagText? c.next (a :: text)
    else some (text.reverse, c)
termination_by c.rest.length
decreasing_by
  · exact Nat.lt_of_le_of_lt (Cursor.skip_rest_le _ _) (Cursor.next_rest_lt (c.look 3) _ _ _h)
  · exact Cursor.next_rest_lt c _ _ _h

/-- A tag: its handle, which stands for its beginning, and the rest. -/
def tagParts? (c : Cursor) : Option (List Char × List Char × Cursor) :=
  if (c.rest.drop 1).head? = some '<' then do
    let (text, after) ← tagText? (c.skip 2)
    if text.isEmpty || after.rest.head? != some '>' then none else some ([], text, after.next)
  else
    let word := (c.rest.drop 1).takeWhile isWord
    let after := c.skip (word.length + 1)
    if after.rest.head? = some '!' then do
      let (text, ended) ← tagText? after.next
      if text.isEmpty then none else some ('!' :: word ++ ['!'], text, ended)
    else do
      let (text, ended) ← tagText? after word.reverse
      if text.isEmpty then some ([], ['!'], ended) else some (['!'], text, ended)

def tag? (s : Scan) : Option Scan := do
  let noted ← s.noteKey?
  let (handle, suffix, after) ← tagParts? (s.cursor.look 2)
  if startsBlank after.rest then
    return { noted.push (.tag (String.ofList handle) (String.ofList suffix)) after with
      keyAllowed := false }
  else none

def blockText? (s : Scan) (folded : Bool) : Option Scan := do
  let dropped ← s.dropKey?
  let written ← block? folded s.margin s.cursor.next
  return { dropped.push (.scalar (String.ofList written.text) false) written.cursor with
    keyAllowed := true }

def quotedText? (s : Scan) (read? : Cursor → Option (List Char × Cursor)) : Option Scan := do
  let noted ← s.noteKey?
  let (text, after) ← read? s.cursor.next
  return { noted.push (.scalar (String.ofList text) false) after with keyAllowed := false }

/-- A plain text. After it a key may begin if it ended with a line. -/
def plainText? (s : Scan) : Option Scan := do
  let noted ← s.noteKey?
  let written ← plain? s.bracketed s.margin s.cursor
  return { noted.push (.scalar (String.ofList written.text) true) written.cursor with
    keyAllowed := written.broken }

/-- The characters with a meaning of their own, which cannot begin a plain text. -/
def isIndicator (c : Char) : Bool :=
  ['-', '?', ':', ',', '[', ']', '\x7b', '\x7d', '#', '&', '*', '!', '|', '>', '\x27', '\x22', '%',
    '@', '\x60'].contains c

/-- Whether a plain text may begin with a character. A dash, a question mark and a
colon may begin one where they mean nothing else. -/
def beginsPlain (bracketed : Bool) (a : Char) (rest : List Char) : Bool :=
  !(isBlank a || isBreak a || isIndicator a) ||
  (a = '-' && !rest.head?.any isBlank) ||
  (!bracketed && (a = '?' || a = ':') && !startsBlank rest)

def token? (s : Scan) (a : Char) (rest : List Char) : Option Scan :=
  if a = '[' then s.openBracket? .flowList
  else if a = '\x7b' then s.openBracket? .flowMap
  else if a = ']' then s.closeBracket? .flowListEnd
  else if a = '\x7d' then s.closeBracket? .flowMapEnd
  else if a = ',' then s.comma?
  else if a = '-' && startsBlank rest then s.dash?
  else if a = '?' && (s.bracketed || startsBlank rest) then s.key?
  else if a = ':' && (s.bracketed || startsBlank rest) then s.value?
  else if a = '*' then s.named? .alias
  else if a = '&' then s.named? .anchor
  else if a = '!' then s.tag?
  else if a = '|' && !s.bracketed then s.blockText? false
  else if a = '>' && !s.bracketed then s.blockText? true
  else if a = '\x27' then s.quotedText? singleQuoted?
  else if a = '\x22' then s.quotedText? doubleQuoted?
  else if beginsPlain s.bracketed a rest then s.plainText?
  else none

def reset? (s : Scan) : Option Scan := do
  let dropped ← (s.closeBlocks fun _ => true).dropKey?
  return { dropped with keyAllowed := false }

def versionPart? (c : Cursor) : Option (Nat × Cursor) :=
  let digits := c.rest.takeWhile Char.isDigit
  if digits.isEmpty || 2 < digits.length then none
  else some (digits.foldl (fun n d => 10 * n + (d.toNat - 0x30)) 0, c.skip digits.length)

def version? (c : Cursor) : Option (Token × Cursor) := do
  let (major, afterMajor) ← versionPart? (c.skipWhile isBlank)
  if afterMajor.rest.head? != some '.' then none
  let (minor, after) ← versionPart? afterMajor.next
  return (.version major minor, after)

def shorthand? (c : Cursor) : Option (Token × Cursor) := do
  let start := c.skipWhile isBlank
  if start.rest.head? != some '!' then none
  let word := (start.rest.drop 1).takeWhile isWord
  let afterWord := start.skip (word.length + 1)
  let closed := afterWord.rest.head? = some '!'
  if !closed && !word.isEmpty then none
  let handle := '!' :: word ++ (if closed then ['!'] else [])
  let afterHandle := if closed then afterWord.next else afterWord
  if !afterHandle.rest.head?.any isBlank then none
  let (meaning, after) ← tagText? (afterHandle.skipWhile isBlank)
  if meaning.isEmpty || !startsBlank after.rest then none
  return (.shorthand (String.ofList handle) (String.ofList meaning), after)

/-- A directive, which takes a line of its own. -/
def directive? (s : Scan) : Option Scan := do
  let closed ← s.reset?
  let name := (s.cursor.rest.drop 1).takeWhile isWord
  let afterName := s.cursor.skip (name.length + 1)
  if !startsBlank afterName.rest then none
  let (token, after) ←
    if name = ['Y', 'A', 'M', 'L'] then version? afterName
    else if name = ['T', 'A', 'G'] then shorthand? afterName
    else none
  let blank := after.skipWhile isBlank
  let ended := if blank.rest.head? = some '#' then blank.skipLine else blank
  if startsBreak ended.rest then some (closed.push token ended.nextLine) else none

def mark? (s : Scan) (token : Token) : Option Scan := do
  let closed ← s.reset?
  return closed.push token (s.cursor.skip 3)

def finish? (s : Scan) : Option Scan := do
  let closed ← s.reset?
  return { closed.push .streamEnd s.cursor with ended := true }

/-- The next token that is no mark and no directive, and a comment on its line. After
a dash a comment belongs to what follows. -/
def commented? (s : Scan) (a : Char) (rest : List Char) : Option Scan := do
  let found ← s.token? a rest
  if found.tokens.back? = some .dash then return found
  else return { found with cursor := found.cursor.skipLineComment }

/-- Cuts the next token off, with the tokens that indentation puts before it. It
must not take characters that may not stand in a document. -/
def step? (s : Scan) : Option Scan := do
  let (place, keyAllowed) := s.cursor.skipToContent s.bracketed s.keyAllowed
  let cursor := place.look markReach
  let here := { s with cursor, keyAllowed }.closeBlocks (cursor.column < ·)
  let found ← match cursor.rest with
    | [] => here.finish?
    | a :: rest =>
      if cursor.column = 0 && a = '%' then here.directive?
      else if cursor.atMark then here.mark? (if a = '-' then .documentStart else .documentEnd)
      else here.commented? a rest
  if found.cursor.window.spoiled then none else some found

/-- Cuts tokens off as long as there are any. What cannot be cut stops it. -/
def run (s : Scan) : Scan :=
  match s.step? with
  | none => s
  | some after =>
    if after.ended then after
    else if after.cursor.rest.length < s.cursor.rest.length then run after
    else s
termination_by s.cursor.rest.length

/-- Whether the token of some number is certain to be the next one: the two after it
are known, and it is no node that may still become a key. At the end of all
documents every token is. -/
def settled (s : Scan) (number : Nat) : Bool :=
  s.ended ||
  (number + 2 < s.tokens.size &&
    !((s.key :: s.outer).any fun key =>
      key.any fun k => k.number = number && (k.required || k.reaches s.cursor)))

end Scan

end Scripting.Yaml
