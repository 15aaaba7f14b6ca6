import Scripting.Yaml.Cursor

/-!
The four ways to write a text: plain, in single or double quotes, and as a block
of indented lines. Line breaks inside a text are folded: one break becomes a
space, and of several the first is dropped.
-/

namespace Scripting.Yaml

/-- Blanks and line breaks inside a text. Once a line is broken, its blanks do not
count. The first break is missing if it was escaped. -/
structure Gap where
  blanks : List Char := []
  broken : Bool := false
  first : Option Char := none
  more : List Char := []

namespace Gap

def escaped : Gap := { broken := true }

def isEmpty (g : Gap) : Bool := g.blanks.isEmpty && !g.broken

def blank (g : Gap) (c : Char) : Gap := if g.broken then g else { g with blanks := c :: g.blanks }

def newline (g : Gap) (c : Char) : Gap :=
  if g.broken then { g with more := breakText c :: g.more }
  else { broken := true, first := some (breakText c) }

/-- What a gap stands for, from its end to its beginning. -/
def text (g : Gap) : List Char :=
  if g.broken then
    match g.first with
    | some '\n' => if g.more.isEmpty then [' '] else g.more
    | some c => g.more ++ [c]
    | none => g.more
  else g.blanks

end Gap

def hexValue? (c : Char) : Option Nat :=
  if '0' ≤ c && c ≤ '9' then some (c.toNat - 0x30)
  else if 'a' ≤ c && c ≤ 'f' then some (c.toNat - 0x57)
  else if 'A' ≤ c && c ≤ 'F' then some (c.toNat - 0x37)
  else none

def character? (digits : List Char) : Option Char := do
  let values ← digits.mapM hexValue?
  let code := values.foldl (fun n d => 16 * n + d) 0
  if h : code.isValidChar then some (Char.ofNatAux code h) else none

/-- The character of exactly so many hexadecimal digits. -/
def coded? (count : Nat) (rest : List Char) : Option (Char × Nat) :=
  if rest.length < count then none
  else (character? (rest.take count)).map fun c => (c, count + 1)

/-- What stands after a backslash: a character, and how many characters it takes to
say it. -/
def escape? : List Char → Option (Char × Nat)
  | [] => none
  | c :: rest =>
    match c with
    | '0' => some ('\x00', 1)
    | 'a' => some ('\x07', 1)
    | 'b' => some ('\x08', 1)
    | 't' | '\t' => some ('\t', 1)
    | 'n' => some ('\n', 1)
    | 'v' => some ('\x0B', 1)
    | 'f' => some ('\x0C', 1)
    | 'r' => some ('\r', 1)
    | 'e' => some ('\x1B', 1)
    | ' ' | '\x22' | '\x27' | '\\' => some (c, 1)
    | 'N' => some ('\u0085', 1)
    | '_' => some ('\u00A0', 1)
    | 'L' => some ('\u2028', 1)
    | 'P' => some ('\u2029', 1)
    | 'x' => coded? 2 rest
    | 'u' => coded? 4 rest
    | 'U' => coded? 8 rest
    | _ => none

/-- How many characters are looked at where a line of a text begins: as many as a
mark between documents takes. -/
def markReach : Nat := 4

def beginPart (gap : Gap) (text : List Char) (c : Cursor) : Cursor :=
  if gap.isEmpty && !text.isEmpty then c else (c.look markReach).look 2

theorem beginPart_rest (gap : Gap) (text : List Char) (c : Cursor) :
    (beginPart gap text c).rest = c.rest := by
  unfold beginPart
  split <;> rfl

def passBlank (gap : Gap) (text : List Char) (c : Cursor) : Cursor :=
  if gap.isEmpty then (beginPart gap text c).next else c.next

theorem passBlank_rest_lt (gap : Gap) (text : List Char) (c : Cursor) (a : Char)
    (rest : List Char) (h : c.rest = a :: rest) :
    (passBlank gap text c).rest.length < c.rest.length := by
  unfold passBlank
  split
  · have h' := (beginPart_rest gap text c).trans h
    exact beginPart_rest gap text c ▸ Cursor.next_rest_lt _ a rest h'
  · exact Cursor.next_rest_lt c a rest h

def passBreak (gap : Gap) (text : List Char) (c : Cursor) : Cursor :=
  if gap.isEmpty then (beginPart gap text c).nextLine else c.nextLine

theorem passBreak_rest_lt (gap : Gap) (text : List Char) (c : Cursor) (a : Char)
    (rest : List Char) (h : c.rest = a :: rest) :
    (passBreak gap text c).rest.length < c.rest.length := by
  unfold passBreak
  split
  · have h' := (beginPart_rest gap text c).trans h
    exact beginPart_rest gap text c ▸ Cursor.nextLine_rest_lt _ a rest h'
  · exact Cursor.nextLine_rest_lt c a rest h

def passInner (gap : Gap) (text : List Char) (c : Cursor) : Cursor := (beginPart gap text c).next

theorem passInner_rest_lt (gap : Gap) (text : List Char) (c : Cursor) (a : Char)
    (rest : List Char) (h : c.rest = a :: rest) :
    (passInner gap text c).rest.length < c.rest.length :=
  beginPart_rest gap text c ▸
    Cursor.next_rest_lt _ a rest ((beginPart_rest gap text c).trans h)

/-- A text in single quotes after the opening one. Two quotes stand for one. -/
def singleQuoted? (c : Cursor) (gap : Gap := {}) (text : List Char := []) :
    Option (List Char × Cursor) :=
  if c.atMark then none
  else
    match _h : c.rest with
    | [] => none
    | a :: rest =>
      if isBlank a then singleQuoted? (passBlank gap text c) (gap.blank a) text
      else if isBreak a then singleQuoted? (passBreak gap text c) (gap.newline a) text
      else if a = '\x27' then
        if rest.head? = some '\x27' then
          singleQuoted? ((passInner gap text c).skip 1 |>.look 2) {} (a :: (gap.text ++ text))
        else some ((gap.text ++ text).reverse, passInner gap text c)
      else singleQuoted? ((passInner gap text c).look 2) {} (a :: (gap.text ++ text))
termination_by c.rest.length
decreasing_by
  · exact passBlank_rest_lt gap text c _ _ _h
  · exact passBreak_rest_lt gap text c _ _ _h
  · exact Nat.lt_of_le_of_lt (Cursor.skip_rest_le _ _) (passInner_rest_lt gap text c _ _ _h)
  · exact passInner_rest_lt gap text c _ _ _h

def passEscape (count : Nat) (c : Cursor) : Cursor :=
  ((c.next.look (count - 1)).skip (count - 1)).look 2

theorem passEscape_rest_le (count : Nat) (c : Cursor) :
    (passEscape count c).rest.length ≤ c.rest.length :=
  Nat.le_trans (Cursor.skip_rest_le _ _) (Cursor.next_rest_le c)

def doubleQuoted? (c : Cursor) (gap : Gap := {}) (text : List Char := []) :
    Option (List Char × Cursor) :=
  if c.atMark then none
  else
    match _h : c.rest with
    | [] => none
    | a :: rest =>
      if isBlank a then doubleQuoted? (passBlank gap text c) (gap.blank a) text
      else if isBreak a then doubleQuoted? (passBreak gap text c) (gap.newline a) text
      else if a = '\x22' then some ((gap.text ++ text).reverse, passInner gap text c)
      else if a = '\\' then
        if rest.head?.any isBreak then
          doubleQuoted? ((beginPart gap text c).look 3 |>.skip 2) Gap.escaped (gap.text ++ text)
        else
          match escape? rest with
          | none => none
          | some (b, count) =>
            doubleQuoted? (passEscape count (passInner gap text c)) {} (b :: (gap.text ++ text))
      else doubleQuoted? ((passInner gap text c).look 2) {} (a :: (gap.text ++ text))
termination_by c.rest.length
decreasing_by
  · exact passBlank_rest_lt gap text c _ _ _h
  · exact passBreak_rest_lt gap text c _ _ _h
  · exact Nat.lt_of_le_of_lt (Cursor.skip_rest_le 1 _)
      (beginPart_rest gap text c ▸
        Cursor.next_rest_lt ((beginPart gap text c).look 3) _ _
          ((beginPart_rest gap text c).trans _h))
  · exact Nat.lt_of_le_of_lt (passEscape_rest_le _ _) (passInner_rest_lt gap text c _ _ _h)
  · exact passInner_rest_lt gap text c _ _ _h

/-- Whether a character ends a plain text: a colon before a blank, and in brackets
also the characters that have a meaning there. -/
def endsPlain (bracketed : Bool) (a : Char) (rest : List Char) : Bool :=
  (a = ':' && startsBlank rest) ||
  (bracketed && (a = ',' || a = '?' || a = '[' || a = ']' || a = '\x7b' || a = '\x7d'))

/-- A text that was written somehow, whether it ended on a later line than its last
character, and the place after it. -/
structure Written where
  text : List Char
  broken : Bool
  cursor : Cursor

def beginWord (bracketed : Bool) (margin : Nat) (gap : Gap) (text : List Char) (c : Cursor) :
    Cursor :=
  if (gap.isEmpty && !text.isEmpty) || (!gap.isEmpty && !bracketed && c.column < margin) then c
  else c.look markReach

theorem beginWord_rest (bracketed : Bool) (margin : Nat) (gap : Gap) (text : List Char)
    (c : Cursor) : (beginWord bracketed margin gap text c).rest = c.rest := by
  unfold beginWord
  split <;> rfl

/-- A plain text. Outside brackets its further lines are indented by a margin,
without tabs. -/
def plain? (bracketed : Bool) (margin : Nat) (c : Cursor) (gap : Gap := {})
    (text : List Char := []) : Option Written :=
  match _h : c.rest with
  | [] => some ⟨text.reverse, gap.broken, c⟩
  | a :: rest =>
    if isBlank a then
      if a = '\t' && gap.broken && c.column < margin then none
      else plain? bracketed margin c.next (gap.blank a) text
    else if isBreak a then plain? bracketed margin c.nextLine (gap.newline a) text
    else if c.atMark || endsPlain bracketed a rest ||
        (!gap.isEmpty && (a = '#' || (!bracketed && c.column < margin))) then
      some ⟨text.reverse, gap.broken, beginWord bracketed margin gap text c⟩
    else
      plain? bracketed margin ((beginWord bracketed margin gap text c).next.look 2) {}
        (a :: (gap.text ++ text))
termination_by c.rest.length
decreasing_by
  · exact Cursor.next_rest_lt c _ _ _h
  · exact Cursor.nextLine_rest_lt c _ _ _h
  · exact beginWord_rest bracketed margin gap text c ▸
      Cursor.next_rest_lt (beginWord bracketed margin gap text c) _ _
        ((beginWord_rest bracketed margin gap text c).trans _h)

inductive Chomp where
  | clip
  | strip
  | keep

/-- How a block is written: whether its lines are folded, what becomes of its last
line breaks, and how far its lines are indented, if that is said. -/
structure BlockHeader where
  folded : Bool
  chomp : Chomp := .clip
  indent : Option Nat := none

def Chomp.ofChar? : Char → Option Chomp
  | '+' => some .keep
  | '-' => some .strip
  | _ => none

/-- Reads how the last line breaks are treated, if it comes next. -/
def BlockHeader.readChomp (h : BlockHeader) (c : Cursor) : BlockHeader × Cursor :=
  match c.rest.head?.bind Chomp.ofChar? with
  | some chomp => ({ h with chomp }, c.next)
  | none => (h, c)

/-- Reads how far the lines are indented, if it comes next. Lines are indented by
one space at least. -/
def BlockHeader.readIndent? (h : BlockHeader) (c : Cursor) : Option (BlockHeader × Cursor) :=
  match c.rest.head? with
  | some a =>
    if a = '0' then none
    else if a.isDigit then some ({ h with indent := some (a.toNat - 0x30) }, c.next)
    else some (h, c)
  | none => some (h, c)

/-- Reads the first line of a block after its indicator, in which the two choices
stand in any order. -/
def BlockHeader.read? (folded : Bool) (c : Cursor) : Option (BlockHeader × Cursor) := do
  let (chomped, afterChomp) := BlockHeader.readChomp { folded } c
  let (indented, afterIndent) ← chomped.readIndent? afterChomp
  let (header, after) :=
    if afterChomp.index = c.index then indented.readChomp afterIndent else (indented, afterIndent)
  let blank := after.skipWhile isBlank
  let ended := if blank.rest.head? = some '#' then blank.skipLine else blank
  if startsBreak ended.rest then some (header, ended.nextLine) else none

/-- The empty lines before the first line of a block that holds something, and how
far the widest line of spaces among them reaches. -/
def blockMargin? (c : Cursor) (widest : Nat := 0) (breaks : List Char := []) :
    Option (Nat × List Char × Cursor) :=
  match _h : c.rest with
  | [] => some (max widest c.column, breaks, c)
  | a :: _ =>
    if a = ' ' then blockMargin? c.next widest breaks
    else if a = '\t' then none
    else if isBreak a then blockMargin? c.nextLine (max widest c.column) (breakText a :: breaks)
    else some (max widest c.column, breaks, c)
termination_by c.rest.length
decreasing_by
  all_goals first | exact Cursor.next_rest_lt c _ _ _h | exact Cursor.nextLine_rest_lt c _ _ _h

/-- A block while it is read: its text so far from the end to the beginning, the
break that ended the last line, the empty lines since, and whether the last line
began with a blank. -/
structure Block where
  text : List Char := []
  last : Option Char := none
  empty : List Char := []
  blankLed : Bool := false

/-- Begins a line with a character. Two folded lines that begin with no blank are
joined. -/
def Block.begin (b : Block) (folded : Bool) (a : Char) : Block :=
  let joined := folded && !b.blankLed && !isBlank a && b.last = some '\n'
  let between :=
    if joined then (if b.empty.isEmpty then [' '] else []) else b.last.toList
  { text := a :: (b.empty ++ (between ++ b.text)), blankLed := isBlank a }

def Block.finish (b : Block) (chomp : Chomp) : List Char :=
  let ending := match chomp with
    | .strip => []
    | .clip => b.last.toList
    | .keep => b.empty ++ b.last.toList
  (ending ++ b.text).reverse

def blockLines? (header : BlockHeader) (indent : Nat) (inLine : Bool) (b : Block) (c : Cursor) :
    Option Written :=
  match _h : c.rest with
  | [] => some ⟨b.finish header.chomp, true, c⟩
  | a :: _ =>
    if inLine then
      if isBreak a then
        blockLines? header indent false { b with last := some (breakText a) } c.nextLine
      else blockLines? header indent true { b with text := a :: b.text } c.next
    else if a = ' ' && c.column < indent then blockLines? header indent false b c.next
    else if a = '\t' && c.column < indent then none
    else if isBreak a then
      blockLines? header indent false { b with empty := breakText a :: b.empty } c.nextLine
    else if c.column = indent then
      blockLines? header indent true (b.begin header.folded a) c.next
    else some ⟨b.finish header.chomp, true, c⟩
termination_by c.rest.length
decreasing_by
  all_goals first | exact Cursor.next_rest_lt c _ _ _h | exact Cursor.nextLine_rest_lt c _ _ _h

def block? (folded : Bool) (margin : Nat) (c : Cursor) : Option Written := do
  let (header, start) ← BlockHeader.read? folded c
  match header.indent with
  | some indent => blockLines? header (margin - 1 + indent) false {} start
  | none =>
    let (widest, empty, first) ← blockMargin? start
    blockLines? header (max widest (max margin 1)) false { empty } first

end Scripting.Yaml
