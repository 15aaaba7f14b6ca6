import Scripting.Number.Arithmetic

/-!
Programs as trees. A node keeps the line of the token that an error at it is
told by; names keep their own.
-/

namespace Scripting

structure Name where
  text : Text
  line : Nat
  deriving DecidableEq

mutual

inductive Expr where
  | assign (target : Expr) (line : Nat) (value : Expr)
  | binary (left : Expr) (op : Operator) (line : Nat) (right : Expr)
  | call (callee : Expr) (line : Nat) (arguments : List Expr)
  | member (object : Expr) (line : Nat) (key : Name)
  | index (object : Expr) (line : Nat) (key : Expr)
  | name (name : Name)
  | number (value : Number)
  | text (value : Text)
  | bool (value : Bool)
  | object (properties : List Property)

/-- A property of an object literal: a key whose value is the variable of that
name, or a key with a value of its own. -/
inductive Property where
  | shorthand (key : Name)
  | pair (key : Name) (value : Expr)

end

mutual

/-- A statement. A declaration may carry a type annotation and may lack a value;
a conditional has one clause or more, and no statements otherwise if it has no
such block. -/
inductive Stmt where
  | expr (expression : Expr)
  | declare (constant : Bool) (name : Name) (type : Option Text) (value : Option Expr)
  | func (name : Name) (parameters : List Name) (body : List Stmt)
  | branch (line : Nat) (first : Clause) (others : List Clause) (otherwise : List Stmt)

inductive Clause where
  | mk (condition : Expr) (body : List Stmt)

end

abbrev Program := List Stmt

def Property.key : Property → Name
  | shorthand key => key
  | pair key _ => key

end Scripting
