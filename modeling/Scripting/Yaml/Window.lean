/-!
How far a document is read ahead. It is read in pieces, and a further piece is read
when more characters are asked for than are known. Then the window is moved: it
begins at the place where the characters were asked for.
-/

namespace Scripting.Yaml

def byteOrderMark : Char := '\uFEFF'

/-- A piece of a document: how many characters it has, and whether all of them may
stand in a document. -/
structure Piece where
  size : Nat
  sound : Bool

structure Window where
  /-- How many characters are known that were not passed yet. The end counts as a
  character each time it is met. -/
  known : Nat := 0
  /-- The pieces that are still to be read. -/
  pieces : List Piece := []
  /-- Whether the window begins with a mark of the byte order. -/
  marked : Bool := false
  /-- Whether a piece was read that is not sound. -/
  spoiled : Bool := false

namespace Window

/-- Reads pieces until so many characters are known, or until the end. -/
def fill (count : Nat) (w : Window) : List Piece → Window
  | [] => { w with known := w.known + 1, pieces := [] }
  | p :: rest =>
    if !p.sound then { w with pieces := [], spoiled := true }
    else if count ≤ w.known + p.size then { w with known := w.known + p.size, pieces := rest }
    else fill count { w with known := w.known + p.size } rest

def look (w : Window) (count : Nat) (first : Option Char) : Window :=
  if count ≤ w.known then w
  else ({ w with marked := first = some byteOrderMark }).fill count w.pieces

def pass (w : Window) (count : Nat) : Window := { w with known := w.known - count }

end Window

end Scripting.Yaml
