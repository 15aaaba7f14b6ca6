import Scripting.Number.Decimal
import Scripting.Text

/-!
What a text says by its form: nothing, a truth value, a number, or a point in time.
A tag may ask for one of these forms.
-/

namespace Scripting.Yaml

inductive Kind where
  | null
  | boolean
  /-- An integer; the large ones do not fit into 64 bits with a sign. -/
  | integer (large : Bool)
  | float
  | text
deriving DecidableEq

def isNullText (t : String) : Bool := ["", "~", "null", "Null", "NULL"].contains t

def isBooleanText (t : String) : Bool :=
  ["true", "True", "TRUE", "false", "False", "FALSE"].contains t

def isSpecialFloat (t : String) : Bool :=
  [".nan", ".NaN", ".NAN", ".inf", ".Inf", ".INF", "+.inf", "+.Inf", "+.INF", "-.inf", "-.Inf",
    "-.INF"].contains t

def digitValue (c : Char) : Nat :=
  if '0' ≤ c && c ≤ '9' then c.toNat - 0x30
  else if 'a' ≤ c && c ≤ 'z' then c.toNat - 0x57
  else if 'A' ≤ c && c ≤ 'Z' then c.toNat - 0x37
  else 36

def digits? (base : Nat) (digits : List Char) : Option Nat :=
  if digits.all fun d => digitValue d < base then
    some (digits.foldl (fun n d => base * n + digitValue d) 0)
  else none

/-- The value of digits, whose beginning tells their base: a zero that of eight,
and a letter after it that of two, eight or sixteen. -/
def basedDigits? : List Char → Option Nat
  | [] => none
  | '0' :: letter :: digit :: rest =>
    if letter = 'b' || letter = 'B' then digits? 2 (digit :: rest)
    else if letter = 'o' || letter = 'O' then digits? 8 (digit :: rest)
    else if letter = 'x' || letter = 'X' then digits? 16 (digit :: rest)
    else digits? 8 (letter :: digit :: rest)
  | '0' :: rest => digits? 8 rest
  | digits => digits? 10 digits

/-- Whether a value fits into 64 bits: those with a sign have one bit less. -/
def integerKind? (signed negative : Bool) (value : Nat) : Option Kind :=
  if value < Nat.pow 2 63 || (negative && value = Nat.pow 2 63) then some (.integer false)
  else if !signed && value < Nat.pow 2 64 then some (.integer true)
  else none

def integer? (read? : List Char → Option Nat) (t : List Char) : Option Kind := do
  match t with
  | '-' :: digits => integerKind? true true (← read? digits)
  | '+' :: digits => integerKind? true false (← read? digits)
  | digits => integerKind? false false (← read? digits)

/-- The value of at least one digit. -/
def someDigits? (base : Nat) (digits : List Char) : Option Nat :=
  if digits.isEmpty then none else digits? base digits

def lettered? (letter : Char) (base : Nat) : List Char → Option Kind
  | '0' :: l :: rest => if l = letter then integer? (someDigits? base) rest else none
  | '-' :: '0' :: l :: rest =>
    if l = letter then integer? (someDigits? base) ('-' :: rest) else none
  | _ => none

/-- A decimal number without its sign: digits with a point and an exponent. -/
def decimal? (t : List Char) : Option Decimal :=
  let whole := t.takeWhile Char.isDigit
  let afterWhole := t.drop whole.length
  let (fraction, rest) := match afterWhole with
    | '.' :: more => (more.takeWhile Char.isDigit, more.dropWhile Char.isDigit)
    | _ => ([], afterWhole)
  if whole.isEmpty && fraction.isEmpty then none
  else do
    let digits ← digits? 10 (whole ++ fraction)
    let exponent ← match rest with
      | [] => some 0
      | e :: more =>
        if e = 'e' || e = 'E' then
          match more with
          | '-' :: power => (someDigits? 10 power).map fun n => -(n : Int)
          | '+' :: power => (someDigits? 10 power).map Int.ofNat
          | power => (someDigits? 10 power).map Int.ofNat
        else none
    return ⟨digits, exponent - fraction.length⟩

/-- Whether a decimal is not too large for a number. -/
def isFinite (d : Decimal) : Bool :=
  let size := (Nat.toDigits 10 d.digits).length + d.exponent
  d.digits = 0 || size ≤ 308 || (size ≤ 309 && d.nearest < Number.infinity)

def isDecimal (t : List Char) : Bool := (decimal? t).any isFinite

def withoutSign : List Char → List Char
  | '-' :: rest => rest
  | '+' :: rest => rest
  | t => t

/-- What a text that begins with a sign or a digit says. Underscores in it do not
count. -/
def numberKind (t : List Char) : Kind :=
  let t := t.filter (· != '_')
  ((integer? basedDigits? t).orElse fun _ =>
    if isDecimal (withoutSign t) then some .float
    else (lettered? 'b' 2 t).orElse fun _ => lettered? 'o' 8 t).getD .text

def Kind.ofText (t : String) : Kind :=
  if isNullText t then .null
  else if isBooleanText t then .boolean
  else if isSpecialFloat t then .float
  else
    match t.toList with
    | [] => .null
    | c :: _ =>
      if c = '.' then (if isDecimal t.toList then .float else .text)
      else if c = '+' || c = '-' || c.isDigit then numberKind t.toList
      else .text

/-- A number of one or two digits, and what follows it. -/
def shortNumber? (t : List Char) : Option (Nat × List Char) :=
  let digits := (t.take 2).takeWhile Char.isDigit
  (someDigits? 10 digits).map fun n => (n, t.drop digits.length)

def after? (c : Char) : List Char → Option (List Char)
  | [] => none
  | a :: rest => if a = c then some rest else none

def isLeapYear (year : Nat) : Bool := year % 4 = 0 && (year % 100 != 0 || year % 400 = 0)

def daysIn (year month : Nat) : Nat :=
  if month = 2 then (if isLeapYear year then 29 else 28)
  else if [4, 6, 9, 11].contains month then 30
  else 31

/-- What follows a date: a year of four digits, a month and a day. -/
def afterDate? (t : List Char) : Option (List Char) := do
  let digits := t.takeWhile Char.isDigit
  if digits.length != 4 then none
  let year ← digits? 10 digits
  let (month, t) ← shortNumber? (← after? '-' (t.drop 4))
  let (day, t) ← shortNumber? (← after? '-' t)
  if 1 ≤ month && month ≤ 12 && 1 ≤ day && day ≤ daysIn year month then some t else none

/-- What follows a fraction of a second, if there is one. -/
def afterFraction (t : List Char) : List Char :=
  match t with
  | c :: d :: rest => if (c = '.' || c = ',') && d.isDigit then rest.dropWhile Char.isDigit else t
  | _ => t

def afterTime? (t : List Char) : Option (List Char) := do
  let (hour, t) ← shortNumber? t
  let (minute, t) ← shortNumber? (← after? ':' t)
  let (second, t) ← shortNumber? (← after? ':' t)
  if hour < 24 && minute < 60 && second < 60 then some (afterFraction t) else none

def isZone : List Char → Bool
  | ['Z'] => true
  | [sign, a, b, ':', c, d] =>
    (sign = '+' || sign = '-') && [a, b, c, d].all Char.isDigit &&
    (someDigits? 10 [a, b]).any (· ≤ 24) && (someDigits? 10 [c, d]).any (· < 60)
  | _ => false

/-- Whether a text is a date, a date and a time of day, or both with a zone. -/
def isTimestamp (t : String) : Bool :=
  (afterDate? t.toList).any fun rest =>
    match rest with
    | [] => true
    | c :: time =>
      if c = 'T' || c = 't' then (afterTime? time).any isZone
      else c = ' ' && (afterTime? (time.dropWhile (· = ' '))).any List.isEmpty

def base64Value? (c : Char) : Option Nat :=
  if 'A' ≤ c && c ≤ 'Z' then some (c.toNat - 0x41)
  else if 'a' ≤ c && c ≤ 'z' then some (c.toNat - 0x61 + 26)
  else if '0' ≤ c && c ≤ '9' then some (c.toNat - 0x30 + 52)
  else if c = '+' then some 62
  else if c = '/' then some 63
  else none

/-- The bytes of a text in base 64: four digits for three bytes. -/
def base64? : List Char → Option Text
  | [] => some []
  | [a, b, '=', '='] => do
    let n := 64 * (← base64Value? a) + (← base64Value? b)
    return [UInt8.ofNat (n / 16)]
  | [a, b, c, '='] => do
    let n := 4096 * (← base64Value? a) + 64 * (← base64Value? b) + (← base64Value? c)
    return [UInt8.ofNat (n / 1024), UInt8.ofNat (n / 4)]
  | a :: b :: c :: d :: rest => do
    let n := 262144 * (← base64Value? a) + 4096 * (← base64Value? b) + 64 * (← base64Value? c) +
      (← base64Value? d)
    let bytes ← base64? rest
    return UInt8.ofNat (n / 65536) :: UInt8.ofNat (n / 256) :: UInt8.ofNat n :: bytes
  | _ => none

/-- The text that a scalar stands for, or none inside if it stands for nothing. A
tag may ask for a form that the text does not have. -/
def scalarText? (tag text : String) (plain : Bool) : Option (Option Text) :=
  let asWritten := some (some (Text.utf8 text))
  if tag = "" then (if plain && isNullText text then some none else asWritten)
  else if tag = "!!null" then (if isNullText text then some none else none)
  else if tag = "!!bool" then (if isBooleanText text then asWritten else none)
  else if tag = "!!int" then
    match Kind.ofText text with
    | .integer _ => asWritten
    | _ => none
  else if tag = "!!float" then
    (if [Kind.float, .integer false].contains (Kind.ofText text) then asWritten else none)
  else if tag = "!!timestamp" then (if isTimestamp text then asWritten else none)
  else if tag = "!!binary" then
    (base64? (text.toList.filter fun c => c != '\n' && c != '\r')).map some
  else asWritten

end Scripting.Yaml
