import Scripting.Text

/-!
Lines as they are read from a buffer of fixed size. A line ends with a line feed,
and a carriage return right before it goes with it. A line that fills the buffer
comes in parts.
-/

namespace Scripting.Text

def lineFeed : UInt8 := 0x0A

def carriageReturn : UInt8 := 0x0D

/-- A line, or a part of one that goes on in the next. -/
structure Line where
  text : Text
  isPart : Bool

namespace Line

def limit : Nat := 4096

/-- The first line of a text and what follows it. Of a part that ends with a
carriage return, that byte is left for the next. -/
def next (t : Text) : Line × Text :=
  let line := t.takeWhile (· != lineFeed)
  if line.length < limit then
    if line.length < t.length then
      (⟨Text.dropSuffix line [carriageReturn], false⟩, t.drop (line.length + 1))
    else (⟨t, false⟩, [])
  else
    let part := t.take limit
    let size := if part.getLast? = some carriageReturn then limit - 1 else limit
    (⟨t.take size, true⟩, t.drop size)

theorem next_shorter {t : Text} (h : t ≠ []) : (next t).2.length < t.length := by
  have positive : 0 < t.length := List.length_pos_iff.mpr h
  unfold next
  simp only
  split
  · split
    · simp only [List.length_drop]; omega
    · exact positive
  · generalize hs :
      (if (t.take limit).getLast? = some carriageReturn then limit - 1 else limit) = size
    have large : 0 < size := by rw [← hs, limit]; split <;> decide
    simp only [List.length_drop]; omega

end Line

def lines (t : Text) : List Line :=
  if h : t = [] then []
  else
    have := Line.next_shorter h
    (Line.next t).1 :: lines (Line.next t).2
termination_by t.length

end Scripting.Text
