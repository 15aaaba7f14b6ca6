import Mathlib.Data.List.Forall2
import Scripting.Program

/-!
Conditionals with several clauses, written with nested ones. Each clause but the first becomes
a conditional of its own, which is all there is to the block otherwise of the one before; it
keeps the line of the whole.
-/

namespace Scripting

namespace Stmt

/-- The clauses after one of them, and what comes otherwise, as a block. -/
def following (line : Nat) : List Clause → List Stmt → List Stmt
  | [], otherwise => otherwise
  | clause :: rest, otherwise => [.branch line clause [] (following line rest otherwise)]

/-- A conditional with its clauses nested. -/
def nested (line : Nat) (first : Clause) (others : List Clause) (otherwise : List Stmt) : Stmt :=
  .branch line first [] (following line others otherwise)

end Stmt

mutual

/-- The second statement is the first one with some of the conditionals in it nested. -/
inductive Stmt.Nests : Stmt → Stmt → Prop
  | expr (e : Expr) : Stmt.Nests (.expr e) (.expr e)
  | declare (constant : Bool) (name : Name) (type : Option Text) (value : Option Expr) :
      Stmt.Nests (.declare constant name type value) (.declare constant name type value)
  | func (name : Name) (parameters : List Name) {body body' : List Stmt}
      (h : List.Forall₂ Stmt.Nests body body') :
      Stmt.Nests (.func name parameters body) (.func name parameters body')
  | branch (line : Nat) {first first' : Clause} {others others' : List Clause}
      {otherwise otherwise' : List Stmt} (hf : Clause.Nests first first')
      (hc : List.Forall₂ Clause.Nests others others')
      (ho : List.Forall₂ Stmt.Nests otherwise otherwise') :
      Stmt.Nests (.branch line first others otherwise) (.branch line first' others' otherwise')
  | nested (line : Nat) {first first' : Clause} {others others' : List Clause}
      {otherwise otherwise' : List Stmt} (hf : Clause.Nests first first')
      (hc : List.Forall₂ Clause.Nests others others')
      (ho : List.Forall₂ Stmt.Nests otherwise otherwise') :
      Stmt.Nests (.branch line first others otherwise) (.nested line first' others' otherwise')

inductive Clause.Nests : Clause → Clause → Prop
  | mk (condition : Expr) {body body' : List Stmt} (h : List.Forall₂ Stmt.Nests body body') :
      Clause.Nests (.mk condition body) (.mk condition body')

end

/-- The second program is the first one with some of the conditionals in it nested. -/
def Program.Nests (p q : Program) : Prop := List.Forall₂ Stmt.Nests p q

mutual

theorem Stmt.Nests.refl (s : Stmt) : s.Nests s := by
  match s with
  | .expr e => exact .expr e
  | .declare constant name type value => exact .declare constant name type value
  | .func name parameters body => exact .func name parameters (Stmt.Nests.each body)
  | .branch line first others otherwise =>
      exact .branch line (Clause.Nests.refl first) (Clause.Nests.each others)
        (Stmt.Nests.each otherwise)

theorem Clause.Nests.refl (c : Clause) : c.Nests c := by
  match c with
  | .mk condition body => exact .mk condition (Stmt.Nests.each body)

theorem Stmt.Nests.each (ss : List Stmt) : List.Forall₂ Stmt.Nests ss ss := by
  match ss with
  | [] => exact .nil
  | s :: ss => exact .cons (Stmt.Nests.refl s) (Stmt.Nests.each ss)

theorem Clause.Nests.each (cs : List Clause) : List.Forall₂ Clause.Nests cs cs := by
  match cs with
  | [] => exact .nil
  | c :: cs => exact .cons (Clause.Nests.refl c) (Clause.Nests.each cs)

end

end Scripting
