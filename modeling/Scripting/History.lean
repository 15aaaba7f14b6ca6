import Scripting.Text.Line
import Scripting.Text.Rune

/-!
The entries of interactive loops, oldest first. Only the newest are kept.
-/

namespace Scripting

structure History where
  entries : List Text := []

namespace History

def limit : Nat := 1000

/-- Adds an entry; the oldest one goes if there are too many. -/
def push (h : History) (entry : Text) : History :=
  let entries := h.entries ++ [entry]
  ⟨entries.drop (entries.length - limit)⟩

/-- Adds an entry on one line, unless it is the same as the newest. -/
def add (h : History) (entry : Text) : History :=
  let line := entry.map fun c => if c = Text.lineFeed then 0x20 else c
  if h.entries.getLast? = some line then h else h.push line

/-- Reads entries, one a line, up to a line that is too long or not UTF-8. -/
def ofText (t : Text) : History :=
  let good := t.lines.takeWhile fun line => !line.isPart && line.text.isUtf8
  let entries := good.map Text.Line.text
  ⟨entries.drop (entries.length - limit)⟩

def text (h : History) : Text := h.entries.flatMap (· ++ [Text.lineFeed])

end History

end Scripting
