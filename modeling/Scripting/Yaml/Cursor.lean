import Scripting.Yaml.Window

/-!
A place in the characters of a document: what is still to come, and how far the
place is from the beginning of the document and of its line. Blanks, line breaks
and comments stand between what a document says; the cursor moves over them.
-/

namespace Scripting.Yaml

def isBlank (c : Char) : Bool := c = ' ' || c = '\t'

/-- The characters that end a line. A carriage return and a line feed together end
one line. -/
def isBreak (c : Char) : Bool :=
  c = '\r' || c = '\n' || c = '\u0085' || c = '\u2028' || c = '\u2029'

/-- What a line break stands for inside a text. The separators of lines and of
paragraphs stand for themselves, every other break for a line feed. -/
def breakText (c : Char) : Char := if c = '\u2028' || c = '\u2029' then c else '\n'

def isWord (c : Char) : Bool := c.isAlphanum || c = '_' || c = '-'

def startsBlank : List Char → Bool
  | [] => true
  | c :: _ => isBlank c || isBreak c

def startsBreak : List Char → Bool
  | [] => true
  | c :: _ => isBreak c

structure Cursor where
  /-- The characters to come. -/
  rest : List Char
  /-- The number of characters before. -/
  index : Nat := 0
  /-- The number of lines before. -/
  line : Nat := 0
  /-- The number of characters before on the same line. -/
  column : Nat := 0
  /-- The number of line breaks since the last character that is no blank. -/
  breaks : Nat := 0
  /-- What is known of the characters to come. -/
  window : Window := {}

namespace Cursor

def look (count : Nat) (c : Cursor) : Cursor :=
  { c with window := c.window.look count c.rest.head? }

theorem look_rest (count : Nat) (c : Cursor) : (c.look count).rest = c.rest := rfl

def start (rest : List Char) (pieces : List Piece) : Cursor :=
  ({ rest, window := { pieces } } : Cursor).look 1

def newline (c : Cursor) (rest : List Char) (size : Nat) : Cursor :=
  { rest, index := c.index + size, line := c.line + 1, column := 0, breaks := c.breaks + 1,
    window := c.window.pass size }

def along (c : Cursor) (a : Char) (rest : List Char) : Cursor :=
  { rest, index := c.index + 1, line := c.line, column := c.column + 1,
    breaks := if isBlank a then c.breaks else 0, window := c.window.pass 1 }

/-- Moves over one character or one line break, and makes the one after it known. -/
def next (c : Cursor) : Cursor :=
  match c.rest with
  | [] => c
  | '\r' :: '\n' :: rest => (c.newline rest 2).look 1
  | a :: rest => (if isBreak a then c.newline rest 1 else c.along a rest).look 1

theorem next_rest_lt (c : Cursor) (a : Char) (rest : List Char) (h : c.rest = a :: rest) :
    c.next.rest.length < c.rest.length := by
  unfold next
  split
  · next hn => simp only [hn, reduceCtorEq] at h
  · next hn => simp only [look_rest, newline, hn, List.length_cons]; omega
  · next hn => rw [look_rest, hn]; split <;> simp only [newline, along, List.length_cons] <;> omega

theorem next_rest_le (c : Cursor) : c.next.rest.length ≤ c.rest.length := by
  cases h : c.rest with
  | nil => simp only [next, h, Nat.le_refl]
  | cons a rest => have := next_rest_lt c a rest h; simp only [h] at this; omega

/-- Moves over a line break, and finds out before whether it is one of two
characters. -/
def nextLine (c : Cursor) : Cursor := (c.look 2).next

theorem nextLine_rest_lt (c : Cursor) (a : Char) (rest : List Char) (h : c.rest = a :: rest) :
    c.nextLine.rest.length < c.rest.length := next_rest_lt (c.look 2) a rest h

theorem nextLine_rest_le (c : Cursor) : c.nextLine.rest.length ≤ c.rest.length :=
  next_rest_le (c.look 2)

def skip : Nat → Cursor → Cursor
  | 0, c => c
  | n + 1, c => skip n c.next

theorem skip_rest_le (n : Nat) (c : Cursor) : (c.skip n).rest.length ≤ c.rest.length := by
  induction n generalizing c with
  | zero => simp [skip]
  | succ n ih => exact Nat.le_trans (ih c.next) (next_rest_le c)

def skipWhile (p : Char → Bool) (c : Cursor) : Cursor :=
  match _h : c.rest with
  | [] => c
  | a :: _ => if p a then skipWhile p c.next else c
termination_by c.rest.length
decreasing_by exact next_rest_lt c _ _ _h

theorem skipWhile_rest_le (p : Char → Bool) (c : Cursor) :
    (c.skipWhile p).rest.length ≤ c.rest.length := by
  fun_induction skipWhile p c with
  | case1 => omega
  | case2 c a rest h ha ih => exact Nat.le_trans ih (next_rest_le c)
  | case3 => omega

/-- Whether one of the marks between documents comes next. They stand at the
beginning of a line. -/
def atMark (c : Cursor) : Bool :=
  c.column = 0 &&
  match c.rest with
  | '-' :: '-' :: '-' :: rest => startsBlank rest
  | '.' :: '.' :: '.' :: rest => startsBlank rest
  | _ => false

/-- How far ahead a comment is looked for. -/
def commentReach : Nat := 512

def skipLine (c : Cursor) : Cursor := c.skipWhile fun a => !isBreak a

def isSimpleGap (a : Char) : Bool := isBlank a || a = '\r' || a = '\n'

def commentLook (rest : List Char) : Nat :=
  match rest with
  | [] => 2
  | a :: more =>
    if isSimpleGap a then min (more.takeWhile isSimpleGap).length (commentReach - 2) + 2 else 2

/-- Whether a further comment is the next thing after the end of a line, with
nothing but blanks and simple line breaks between. -/
def commentFollows (rest : List Char) : Bool :=
  match rest with
  | [] => false
  | a :: more =>
    let gap := more.takeWhile isSimpleGap
    isSimpleGap a && gap.length + 1 < commentReach && (more.drop gap.length).head? = some '#'

def endComment (c : Cursor) : Cursor :=
  let ended := c.next.skipLine
  ended.look (commentLook ended.rest)

theorem endComment_rest_lt (c : Cursor) (a : Char) (rest : List Char) (h : c.rest = a :: rest) :
    c.endComment.rest.length < c.rest.length := by
  simp only [endComment, look_rest]
  exact Nat.lt_of_le_of_lt (skipWhile_rest_le _ _) (next_rest_lt c a rest h)

def skipGap (c : Cursor) : Cursor :=
  match _h : c.rest with
  | [] => c
  | a :: _ =>
    if isBlank a then skipGap c.next
    else if isBreak a then skipGap c.nextLine
    else c
termination_by c.rest.length
decreasing_by
  · exact next_rest_lt c _ _ _h
  · exact nextLine_rest_lt c _ _ _h

theorem skipGap_rest_le (c : Cursor) : c.skipGap.rest.length ≤ c.rest.length := by
  fun_induction skipGap c with
  | case1 => omega
  | case2 c a rest h ha ih => exact Nat.le_trans ih (next_rest_le c)
  | case3 c a rest h ha hb ih => exact Nat.le_trans ih (nextLine_rest_le c)
  | case4 => omega

def skipComments (c : Cursor) : Cursor :=
  match _h : c.rest with
  | [] => c
  | _ :: _ =>
    if commentFollows c.endComment.rest then skipComments c.endComment.skipGap else c.endComment
termination_by c.rest.length
decreasing_by exact Nat.lt_of_le_of_lt (skipGap_rest_le _) (endComment_rest_lt c _ _ _h)

theorem skipComments_rest_le (c : Cursor) : c.skipComments.rest.length ≤ c.rest.length := by
  fun_induction skipComments c with
  | case1 => omega
  | case2 c a rest h hf ih =>
    exact Nat.le_trans ih
      (Nat.le_trans (skipGap_rest_le _) (Nat.le_of_lt (endComment_rest_lt c a rest h)))
  | case3 c a rest h hf => exact Nat.le_of_lt (endComment_rest_lt c a rest h)

/-- Moves over a comment on the same line, if there is one. -/
def skipLineComment (c : Cursor) : Cursor :=
  if c.breaks = 0 then
    let blanks := (c.rest.takeWhile isBlank).length
    let seen := c.look (min (blanks + 1) commentReach)
    if blanks < commentReach && (c.rest.drop blanks).head? = some '#' then seen.skipLine else seen
  else c

/-- Moves over the first character of a line, whatever it is, if the window begins
with a mark of the byte order: the character is taken for that mark. -/
def skipByteOrderMark (c : Cursor) : Cursor :=
  match c.rest with
  | [] => c
  | a :: rest => if c.column = 0 && c.window.marked then (c.along a rest).look 1 else c

theorem skipByteOrderMark_rest_le (c : Cursor) :
    c.skipByteOrderMark.rest.length ≤ c.rest.length := by
  unfold skipByteOrderMark
  split
  · exact Nat.le_refl _
  · next h =>
    split
    · simp only [look_rest, along, h, List.length_cons]; omega
    · exact Nat.le_refl _

/-- Moves over spaces, over tabs too where they may stand, and over comments. -/
def skipBlanks (tabs : Bool) (c : Cursor) : Cursor :=
  let blank := c.skipByteOrderMark.skipWhile fun a => a = ' ' || (tabs && a = '\t')
  if blank.rest.head? = some '#' then blank.skipComments else blank

theorem skipBlanks_rest_le (tabs : Bool) (c : Cursor) :
    (c.skipBlanks tabs).rest.length ≤ c.rest.length := by
  have blank := Nat.le_trans (skipWhile_rest_le (fun a => a = ' ' || (tabs && a = '\t')) _)
    (skipByteOrderMark_rest_le c)
  simp only [skipBlanks]
  split
  · exact Nat.le_trans (skipComments_rest_le _) blank
  · exact blank

/-- Moves to what the document says next. Outside brackets a new line may begin
with a key, and then tabs before it are not passed over. -/
def skipToContent (bracketed keyAllowed : Bool) (c : Cursor) : Cursor × Bool :=
  let blank := c.skipBlanks (bracketed || !keyAllowed)
  match _h : blank.rest with
  | [] => (blank, keyAllowed)
  | a :: _ =>
    if isBreak a then skipToContent bracketed (keyAllowed || !bracketed) blank.nextLine
    else (blank, keyAllowed)
termination_by c.rest.length
decreasing_by exact Nat.lt_of_lt_of_le (nextLine_rest_lt blank _ _ _h) (skipBlanks_rest_le _ c)

end Cursor

end Scripting.Yaml
