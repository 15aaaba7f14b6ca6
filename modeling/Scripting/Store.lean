import Scripting.RuntimeError

/-!
The store of a run: its scopes and its objects, each known by a number in order
of creation. A scope has a parent made before it or none, and a name means what
the nearest scope that binds it says.
-/

namespace Scripting

structure Binding where
  value : Value
  constant : Bool

structure Scope where
  parent : Option Nat
  bindings : Table Binding

structure Store where
  scopes : Array Scope
  objects : Array (Table Value)

namespace Store

def empty : Store := ⟨#[], #[]⟩

/-- The store with a new scope, and its number. -/
def newScope (s : Store) (parent : Option Nat) : Nat × Store :=
  (s.scopes.size, { s with scopes := s.scopes.push ⟨parent, .empty⟩ })

/-- The store with a new object, and its number. -/
def newObject (s : Store) (fields : Table Value) : Nat × Store :=
  (s.objects.size, { s with objects := s.objects.push fields })

def binding? (s : Store) (scope : Nat) (name : Text) : Option Binding :=
  s.scopes[scope]?.bind (·.bindings.get? name)

/-- The store with a name bound in one scope, whatever it was before. -/
def bind (s : Store) (scope : Nat) (name : Text) (binding : Binding) : Store :=
  { s with scopes := s.scopes.modify scope fun c =>
      { c with bindings := c.bindings.set name binding } }

/-- The nearest scope, from the given one outward, that binds a name. Parents are
older than their children, so the search goes down in number. -/
def resolve? (s : Store) (scope : Nat) (name : Text) : Option Nat :=
  match s.scopes[scope]? with
  | none => none
  | some c =>
    if c.bindings.contains name then some scope
    else match c.parent with
      | none => none
      | some parent => if parent < scope then s.resolve? parent name else none
termination_by scope

def isConstant (s : Store) (scope : Nat) (name : Text) : Bool :=
  (s.binding? scope name).any Binding.constant

/-- A name can be declared in a scope that does not bind it. -/
def declarable (s : Store) (scope : Nat) (name : Text) : Except BindingError Unit :=
  if (s.binding? scope name).isSome then .error (.duplicate name) else .ok ()

/-- The scope in which an assignment to a name takes place: the nearest one that
binds it, and not as a constant. -/
def assignable (s : Store) (scope : Nat) (name : Text) : Except BindingError Nat :=
  match s.resolve? scope name with
  | none => .error (.unresolved name)
  | some owner => if s.isConstant owner name then .error (.constant name) else .ok owner

def declare (s : Store) (scope : Nat) (name : Text) (value : Value) (constant : Bool) :
    Except BindingError Store :=
  (s.declarable scope name).map fun _ => s.bind scope name ⟨value, constant⟩

/-- Gives a variable a new value in the nearest scope that binds it. -/
def assign (s : Store) (scope : Nat) (name : Text) (value : Value) : Except BindingError Store :=
  (s.assignable scope name).map fun owner => s.bind owner name ⟨value, false⟩

def lookup (s : Store) (scope : Nat) (name : Text) : Except BindingError Value :=
  match (s.resolve? scope name).bind (s.binding? · name) with
  | none => .error (.unresolved name)
  | some binding => .ok binding.value

def fields (s : Store) (object : Nat) : Table Value := (s.objects[object]?).getD .empty

def setField (s : Store) (object : Nat) (key : Text) (value : Value) : Store :=
  { s with objects := s.objects.modify object (·.set key value) }

end Store

end Scripting
