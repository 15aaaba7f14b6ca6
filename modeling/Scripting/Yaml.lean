import Scripting.Text.Rune
import Scripting.Yaml.Kind
import Scripting.Yaml.Node

/-!
YAML documents: their characters, and the values that a mapping gives to names. A
mapping may take entries over from others; its own entries come before those.
-/

namespace Scripting.Yaml

def isAllowed (code : Nat) : Bool :=
  code = 0x09 || code = 0x0A || code = 0x0D || (0x20 ≤ code && code ≤ 0x7E) || code = 0x85 ||
  (0xA0 ≤ code && code ≤ 0xD7FF) || (0xE000 ≤ code && code ≤ 0xFFFD) || 0x10000 ≤ code

/-- A character by its code and the number of its bytes; bytes that are no character
have no code. -/
structure Coded where
  code : Option Nat
  size : Nat

def isHighSurrogate (unit : Nat) : Bool := 0xD800 ≤ unit && unit ≤ 0xDBFF

def isLowSurrogate (unit : Nat) : Bool := 0xDC00 ≤ unit && unit ≤ 0xDFFF

/-- The characters of a text in UTF-16. Two surrogates make one character. -/
def utf16 (unit : UInt8 → UInt8 → Nat) : Text → List Coded
  | [] => []
  | [_] => [⟨none, 1⟩]
  | a :: b :: rest =>
    if isHighSurrogate (unit a b) then
      match rest with
      | c :: d :: rest =>
        if isLowSurrogate (unit c d) then
          let code := 0x10000 + (unit a b - 0xD800) * 0x400 + (unit c d - 0xDC00)
          ⟨some code, 4⟩ :: utf16 unit rest
        else [⟨none, 4⟩]
      | _ => [⟨none, 2⟩]
    else if isLowSurrogate (unit a b) then [⟨none, 2⟩]
    else ⟨some (unit a b), 2⟩ :: utf16 unit rest

/-- The characters of a text. A mark of the byte order in UTF-16 tells that encoding
and its order; otherwise it is UTF-8. -/
def coded (t : Text) : List Coded :=
  match t with
  | 0xFF :: 0xFE :: _ => utf16 (fun a b => 256 * b.toNat + a.toNat) t
  | 0xFE :: 0xFF :: _ => utf16 (fun a b => 256 * a.toNat + b.toNat) t
  | _ => t.runes.map fun r => ⟨r.code, r.bytes.length⟩

/-- A document is read in pieces of so many bytes. -/
def pieceSize : Nat := 512

def Coded.isAllowed (c : Coded) : Bool := c.code.any Yaml.isAllowed

/-- The pieces of some characters, after a number of them in a piece that has some
room left. Nothing is read after a piece that is not sound. -/
def pieces (room count : Nat) : List Coded → List Piece
  | [] => [⟨count, true⟩]
  | c :: rest =>
    if c.size ≤ room then
      (if c.isAllowed then pieces (room - c.size) (count + 1) rest else [⟨count, false⟩])
    else
      ⟨count, true⟩ ::
        (if c.isAllowed then pieces (pieceSize - c.size) 1 rest else [⟨0, false⟩])

/-- The place at the beginning of a document. A mark of the byte order there is no
part of it. -/
def opening (t : Text) : Cursor :=
  let all := coded t
  let body := if (all.head?.bind Coded.code) = some byteOrderMark.toNat then all.drop 1 else all
  let mark := (all.take (all.length - body.length)).foldl (fun n c => n + c.size) 0
  let chars := (body.takeWhile Coded.isAllowed).map fun c => Char.ofNat (c.code.getD 0)
  Cursor.start chars (pieces (pieceSize - mark) 0 body)

def Document.ofText? (t : Text) : Option Document :=
  let start := opening t
  if start.window.spoiled then none else Document.ofScan? (Scan.run { cursor := start })

namespace Document

def follow (d : Document) : Node → Node
  | .alias _ target => d.shared.getD target .nothing
  | node => node

/-- The text of a node, or none inside if it stands for nothing. -/
def text? (d : Document) (n : Node) : Option (Option Text) :=
  match d.follow n with
  | .scalar tag text plain => scalarText? tag text plain
  | _ => none

def sameKey : Node → Node → Bool
  | .scalar _ a _, .scalar _ b _ => a = b
  | .alias a _, .alias b _ => a = b
  | .list _, .list _ => true
  | .map _, .map _ => true
  | _, _ => false

def distinct : List (Node × Node) → Bool
  | [] => true
  | (key, _) :: rest => !rest.any (fun other => sameKey key other.1) && distinct rest

def isMerge : Node → Bool
  | .scalar tag text plain => text = "<<" && ((tag = "" && plain) || tag = "!!merge")
  | _ => false

/-- The entries of a mapping by the texts of their keys, without those that are to
be taken over. A key that stands for nothing has no text. -/
def named? (d : Document) (entries : List (Node × Node)) : Option (List (Text × Node)) := do
  let own := entries.filter fun entry => !isMerge entry.1
  let named ← own.mapM fun (key, value) => do return (← d.text? key).map fun name => (name, value)
  return named.filterMap id

def entries? (d : Document) (n : Node) : Option (List (Node × Node)) :=
  match d.follow n with
  | .map entries => if distinct entries then some entries else none
  | _ => none

def sources (entries : List (Node × Node)) : List Node :=
  match entries.find? fun entry => isMerge entry.1 with
  | some (_, .list items) => items
  | some (_, source) => [source]
  | none => []

def fresh (seen : List Text) : List (Text × Node) → List (Text × Node)
  | [] => []
  | (name, value) :: rest =>
    if seen.contains name then fresh seen rest
    else (name, value) :: fresh (name :: seen) rest

/-- The entries with new names that are taken over from some mappings, and from
those that these take over from. A chain of mappings that is longer than the
document has any goes round in a circle. -/
def taken? (d : Document) :
    (fuel : Nat) → (seen : List Text) → List Node → Option (List (Text × Node))
  | 0, _, _ => none
  | fuel + 1, seen, nodes =>
    nodes.foldlM (fun found node => do
      let entries ← d.entries? node
      let own := fresh (found.map Prod.fst ++ seen) (← d.named? entries)
      let known := found ++ own
      return known ++ (← d.taken? fuel (known.map Prod.fst ++ seen) (sources entries))) []

/-- The values that a mapping gives to some names. No name may get two of its own
values. Nothing gives none. -/
def fields? (d : Document) (names : List Text) (n : Node) :
    Option (List (Text × Node)) := do
  match d.follow n with
  | .map entries =>
    if !distinct entries then none
    let named ← d.named? entries
    let own := named.filter fun entry => names.contains entry.1
    if !(own.map Prod.fst).Nodup then none
    let merged ← d.taken? (d.size + 1) (named.map Prod.fst) (sources entries)
    return own ++ merged.filter fun entry => names.contains entry.1
  | .scalar tag text plain =>
    match ← scalarText? tag text plain with
    | none => some []
    | some _ => none
  | _ => none

end Document

end Scripting.Yaml
