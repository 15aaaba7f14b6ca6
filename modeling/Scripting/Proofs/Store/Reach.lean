import Scripting.Proofs.Eval.Discipline
import Scripting.Proofs.Store.Bindings

/-!
The places of a store and the ways between them. From a scope one reaches its parents, the
values bound in scopes, the scopes that functions were made in, and the fields of objects.
-/

namespace Scripting

/-- A place of a store: a scope or an object, by its number. -/
inductive Cell where
  | scope (id : Nat)
  | object (id : Nat)
  deriving DecidableEq

/-- The place that a value leads to: its object, or the scope that it was made in. -/
def Value.cell? : Value → Option Cell
  | .object id => some (.object id)
  | .func _ scope => some (.scope scope)
  | .null | .bool _ | .number _ | .text _ | .native _ => none

/-- A value that leads to no place outside a region. -/
def Value.In (region : Cell → Prop) (v : Value) : Prop := ∀ cell, v.cell? = some cell → region cell

theorem Value.in_func (region : Cell → Prop) (function : Function) (scope : Nat) :
    (Value.func function scope).In region ↔ region (.scope scope) := by
  constructor
  · intro h
    exact h _ rfl
  · rintro h cell ⟨⟩
    exact h

theorem Value.in_object (region : Cell → Prop) (id : Nat) :
    (Value.object id).In region ↔ region (.object id) := by
  constructor
  · intro h
    exact h _ rfl
  · rintro h cell ⟨⟩
    exact h

theorem Value.cell?_of_isPlain {v : Value} (h : v.isPlain = true) : v.cell? = none := by
  cases v with
  | object _ | native _ | func _ _ => cases h
  | null | bool _ | number _ | text _ => rfl

theorem Value.in_of_cell?_none {v : Value} (h : v.cell? = none) (region : Cell → Prop) :
    v.In region := by
  intro cell hc
  rw [h] at hc
  cases hc

namespace Store

/-- The places that a store has. -/
def Made (s : Store) : Cell → Prop
  | .scope id => id < s.scopes.size
  | .object id => id < s.objects.size

/-- The places that can be reached from a scope. -/
inductive Reach (s : Store) (start : Nat) : Cell → Prop
  | start : Reach s start (.scope start)
  | parent {scope parent : Nat} {c : Scope} (h : Reach s start (.scope scope))
      (hc : s.scopes[scope]? = some c) (hp : c.parent = some parent) :
      Reach s start (.scope parent)
  | bound {scope : Nat} {name : Text} {b : Binding} {cell : Cell}
      (h : Reach s start (.scope scope)) (hb : s.binding? scope name = some b)
      (hv : b.value.cell? = some cell) : Reach s start cell
  | field {object : Nat} {key : Text} {v : Value} {cell : Cell}
      (h : Reach s start (.object object)) (hk : (s.fields object).get? key = some v)
      (hv : v.cell? = some cell) : Reach s start cell

/-- No way leads out of a region. -/
structure Closed (region : Cell → Prop) (s : Store) : Prop where
  parents : ∀ {scope parent : Nat} {c : Scope}, region (.scope scope) →
    s.scopes[scope]? = some c → c.parent = some parent → region (.scope parent)
  bound : ∀ {scope : Nat} {name : Text} {b : Binding}, region (.scope scope) →
    s.binding? scope name = some b → b.value.In region
  fields : ∀ {object : Nat} {key : Text} {v : Value}, region (.object object) →
    (s.fields object).get? key = some v → v.In region

theorem Reach.of_closed {region : Cell → Prop} {s : Store} {start : Nat} {cell : Cell}
    (hs : s.Closed region) (hr : region (.scope start)) (h : s.Reach start cell) : region cell := by
  induction h with
  | start => exact hr
  | parent _ hc hp ih => exact hs.parents ih hc hp
  | bound _ hb hv ih => exact hs.bound ih hb _ hv
  | field _ hk hv ih => exact hs.fields ih hk _ hv

theorem lt_size_of_get?_fields {s : Store} {object : Nat} {key : Text} {v : Value}
    (h : (s.fields object).get? key = some v) : object < s.objects.size := by
  by_cases ho : object < s.objects.size
  · exact ho
  · rw [fields, Array.getElem?_eq_none (Nat.le_of_not_lt ho)] at h
    cases h

/-- What can be reached from a scope, and all that is not there yet. -/
def Within (s : Store) (start : Nat) (cell : Cell) : Prop := s.Made cell → s.Reach start cell

theorem within_closed (s : Store) (start : Nat) : s.Closed (s.Within start) where
  parents h hc hp _ := (h (Array.getElem?_eq_some_iff.mp hc).1).parent hc hp
  bound h hb _ hv _ := (h (lt_size_of_binding? hb)).bound hb hv
  fields h hk _ hv _ := (h (lt_size_of_get?_fields hk)).field hk hv

end Store

end Scripting
