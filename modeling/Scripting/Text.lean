/-!
Texts are byte strings. Source code, names and string values are kept as the
bytes they came as; an encoding matters only where a rule speaks of characters.
-/

namespace Scripting

/-- A byte string, of any encoding or none. -/
abbrev Text := List UInt8

namespace Text

def utf8 (s : String) : Text := s.toList.flatMap String.utf8EncodeChar

def ofNat (n : Nat) : Text := utf8 (String.ofList (Nat.toDigits 10 n))

/-- An integer in decimal digits, with a sign if it is negative. -/
def ofInt : Int → Text
  | .ofNat n => ofNat n
  | .negSucc n => utf8 "-" ++ ofNat (n + 1)

/-- The texts in order, with the separator between any two neighbours. -/
def join (separator : Text) : List Text → Text
  | [] => []
  | [t] => t
  | t :: rest => t ++ separator ++ join separator rest

/-- The texts in order, with nothing between them. -/
def concat : List Text → Text
  | [] => []
  | [t] => t
  | t :: rest => t ++ concat rest

@[simp] theorem concat_nil : concat [] = [] := rfl

@[simp] theorem concat_cons (t : Text) (rest : List Text) :
    concat (t :: rest) = t ++ concat rest := by
  cases rest with
  | nil => simp only [concat, List.append_nil]
  | cons _ _ => rfl

def inQuotes (t : Text) : Text := utf8 "\"" ++ t ++ utf8 "\""

/-- The text without a suffix, if it ends with it. -/
def dropSuffix (t suffix : Text) : Text :=
  if suffix.isSuffixOf t then t.take (t.length - suffix.length) else t

def splitOn (separator : UInt8) : Text → List Text
  | [] => [[]]
  | c :: rest =>
    if c = separator then [] :: splitOn separator rest
    else match splitOn separator rest with
      | [] => [[c]]
      | piece :: pieces => (c :: piece) :: pieces

def le : Text → Text → Bool
  | [], _ => true
  | _ :: _, [] => false
  | a :: s, b :: t => a < b || (a = b && le s t)

end Text

end Scripting
