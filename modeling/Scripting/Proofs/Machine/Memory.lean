import Scripting.Builtin
import Scripting.Host
import Scripting.Proofs.Front.Nodes
import Scripting.Proofs.Front.Walk
import Scripting.Text.Quoted

/-!
The memory of a machine that runs trees as they are. A scope has one map for its values and another
for its constants; an object has a list of keys beside the map of its fields. In the maps a value
can be missing, and nothing in their types keeps the two parts of a scope or of an object together.
-/

namespace Scripting

/-- A value of the machine. A function is its tree with the scope that it was made in. -/
inductive Datum where
  | null
  | bool (value : Bool)
  | number (value : Number)
  | text (value : Text)
  | object (id : Nat)
  | native (function : Native)
  | func (declaration : FuncNode) (closure : Nat)

def Datum.kind : Datum → Value.Kind
  | null => .null
  | bool _ => .boolean
  | number _ => .number
  | text _ => .string
  | object _ => .object
  | native _ => .nativeFunction
  | func _ _ => .function

def Table.erase {α : Type} (t : Table α) (name : Text) : Table α :=
  ⟨t.entries.filter fun entry => entry.1 ≠ name⟩

/-- A scope of the machine. -/
structure Frame where
  enclosing : Option Nat
  values : Table (Option Datum) := .empty
  constants : Table Bool := .empty

namespace Frame

/-- Binds a name, whatever it was before. -/
def define (f : Frame) (name : Text) (value : Option Datum) (constant : Bool) : Frame :=
  { f with
    values := f.values.set name value
    constants := if constant then f.constants.set name true else f.constants.erase name }

def isConstant (f : Frame) (name : Text) : Bool := (f.constants.get? name).getD false

end Frame

/-- An object of the machine: its keys in order, and its fields. -/
structure Record where
  keys : List Text := []
  fields : Table (Option Datum) := .empty

/-- A key that has a field already keeps its place. -/
def Record.set (r : Record) (key : Text) (value : Option Datum) : Record where
  keys := if r.fields.contains key then r.keys else r.keys ++ [key]
  fields := r.fields.set key value

/-- The machine: its scopes and objects, the lines printed, the readings of the clock, and the
error that has ended an evaluation. It is told too whether a value that is missing was ever stored;
nothing is decided by that. -/
structure Machine where
  frames : Array Frame := #[]
  records : Array Record := #[]
  printed : Array Text := #[]
  readings : Nat := 0
  raised : Option RuntimeError := none
  blank : Bool := false

namespace Machine

variable (m : Machine)

def newFrame (enclosing : Option Nat) : Nat × Machine :=
  (m.frames.size, { m with frames := m.frames.push { enclosing } })

def newRecord (record : Record) : Nat × Machine :=
  (m.records.size, { m with
    records := m.records.push record
    blank := m.blank || record.fields.entries.any (·.2.isNone) })

def define (frame : Nat) (name : Text) (value : Option Datum) (constant : Bool) : Machine :=
  { m with
    frames := m.frames.modify frame (·.define name value constant)
    blank := m.blank || value.isNone }

/-- The nearest scope, from the given one outward, that binds a name. -/
def resolve? (frame : Nat) (name : Text) : Option Nat :=
  match m.frames[frame]? with
  | none => none
  | some f =>
    if f.values.contains name then some frame
    else match f.enclosing with
      | none => none
      | some parent => if parent < frame then resolve? parent name else none
termination_by frame

/-- Binds a name in a scope that does not bind it. -/
def declare (frame : Nat) (name : Text) (value : Option Datum) (constant : Bool) :
    Except BindingError Machine :=
  if m.frames[frame]?.any (·.values.contains name) then .error (.duplicate name)
  else .ok (m.define frame name value constant)

/-- Gives a name another value in the nearest scope that binds it. -/
def assign (frame : Nat) (name : Text) (value : Option Datum) : Except BindingError Machine :=
  match m.resolve? frame name with
  | none => .error (.unresolved name)
  | some owner =>
    if m.frames[owner]?.any (·.isConstant name) then .error (.constant name)
    else .ok { m with
      frames := m.frames.modify owner fun f => { f with values := f.values.set name value }
      blank := m.blank || value.isNone }

/-- The value of a name. It is missing if the scope found for the name has none. -/
def lookup (frame : Nat) (name : Text) : Except BindingError (Option Datum) :=
  match m.resolve? frame name with
  | none => .error (.unresolved name)
  | some owner => .ok (m.frames[owner]?.bind fun f => (f.values.get? name).join)

def record (object : Nat) : Record := m.records[object]?.getD {}

def setField (object : Nat) (key : Text) (value : Option Datum) : Machine :=
  { m with
    records := m.records.modify object (·.set key value)
    blank := m.blank || value.isNone }

/-- The text of a value by itself that is no object, or nothing if it is a function without a
name. -/
def plain? : Datum → Option Text
  | .null => Text.utf8 "null"
  | .bool value => Text.utf8 (if value then "true" else "false")
  | .number value => value.display
  | .text value => some value
  | .object _ => none
  | .native _ => Text.utf8 "<fn native>"
  | .func (.mk name _ _) _ =>
    name.map fun name => Text.utf8 "<fn " ++ name.lexeme ++ Text.utf8 ">"

/-- The text of a field, where objects are shown as told. A field without a value has none. -/
def field? (inner : Nat → Option Text) : Option Datum → Option Text
  | none => none
  | some (.object id) => inner id
  | some (.text value) => value.quote
  | some value => plain? value

/-- The texts of the fields of an object, if all its keys have values. -/
def showFields? (inner : Nat → Option Text) (r : Record) : Option (List Text) :=
  r.keys.mapM fun key =>
    (field? inner (r.fields.get? key).join).map (key ++ Text.utf8 ": " ++ ·)

/-- The text of an object inside the objects of a path. -/
def showObject? : (fuel : Nat) → (path : List Nat) → (id : Nat) → Option Text
  | 0, _, _ => none
  | fuel + 1, path, id =>
    if (m.record id).keys.isEmpty then some (Text.utf8 "\x7b\x7d")
    else if path.contains id then some (Text.utf8 "\x7b...\x7d")
    else (showFields? (showObject? fuel (id :: path)) (m.record id)).map fun texts =>
      Text.utf8 "\x7b " ++ Text.join (Text.utf8 ", ") texts ++ Text.utf8 " \x7d"

/-- The text of a value. No path is longer than there are objects. -/
def display? : Datum → Option Text
  | .object id => m.showObject? (m.records.size + 1) [] id
  | value => plain? value

end Machine

end Scripting
