import Scripting.Proofs.Eval.Course

/-!
Evaluations under two hosts that have the same functions. The computations under the one are
compared with the courses of those under the other: a comparison that computations on the store
alone pass, that passes on from one computation to the next, and that covers what the hosts do,
covers every evaluation.
-/

namespace Scripting

namespace Eval

variable {α β : Type}

/-- A computation that has to do with the store alone. -/
def Plain (x : Eval α) : Prop := ∀ s printed log readings,
  x { s with printed, log, readings } = ((x s).1, { (x s).2 with printed, log, readings })

theorem Plain.pure (a : α) : Plain (Pure.pure a : Eval α) := fun _ _ _ _ => rfl

theorem Plain.exhausted : Plain (Eval.exhausted : Eval α) := fun _ _ _ _ => rfl

theorem Plain.fail (line : Nat) (cause : RuntimeError.Cause) (detail : Text) :
    Plain (Eval.fail line cause detail : Eval α) := fun _ _ _ _ => rfl

theorem Plain.onStore (line : Nat) (look : Store → Except BindingError α)
    (change : α → Store → Store) : Plain (Eval.onStore line look change) := by
  intro s printed log readings
  simp only [Eval.onStore]
  cases look s.store <;> rfl

theorem Plain.bind {x : Eval α} {f : α → Eval β} (hx : Plain x) (hf : ∀ a, Plain (f a)) :
    Plain (x >>= f) := by
  intro s printed log readings
  have hx := hx s printed log readings
  match hs : x s with
  | (.ok a, t) =>
      rw [hs] at hx
      rw [bind_ok hs, bind_ok hx]
      exact hf a t printed log readings
  | (.error e, t) =>
      rw [hs] at hx
      rw [bind_error hs, bind_error hx]
  | (.exhausted, t) =>
      rw [hs] at hx
      rw [bind_exhausted hs, bind_exhausted hx]

/-- A course without calls on which nothing is to be printed. -/
def Course.Quiet {x : Eval α} (c : Course x) : Prop := ∀ s, c.calls s = [] ∧ c.prints s = []

theorem Course.step_quiet (x : Eval α) : (Course.step x).Quiet := fun _ => ⟨rfl, rfl⟩

end Eval

open Eval Evaluator

/-- A relation between computations under a host and courses under another one. -/
structure Comparison (left right : Host) where
  Holds : {α : Type} → Eval α → {y : Eval α} → Course y → Prop
  plain : ∀ {α : Type} {x : Eval α} {c : Course x}, Plain x → c.Quiet → Holds x c
  bind : ∀ {α β : Type} {x y : Eval α} {f g : α → Eval β} {c : Course y}
    {d : (a : α) → Course (g a)}, Holds x c → (∀ a, Holds (f a) (d a)) →
    Holds (x >>= f) (c.bind d)
  withUses : ∀ {α : Type} {x y : Eval α} {c : Course y} {uses : State → List (Access × Store)},
    Holds x c → Holds x (c.withUses uses)
  functions : left.functions = right.functions
  call : ∀ c : Call, Holds (Eval.trace left c.event) (.call right c)
  print : ∀ (scope line : Nat) (arguments : List Value),
    Holds (callNative left scope line arguments .print)
      (nativeCourse right scope line arguments .print)
  time : ∀ (scope line : Nat) (arguments : List Value),
    Holds (callNative left scope line arguments .time)
      (nativeCourse right scope line arguments .time)

namespace Evaluator

theorem lookup_plain (scope : Nat) (name : Name) : Plain (lookup scope name) := .onStore _ _ _

theorem declare_plain (scope : Nat) (name : Name) (value : Value) (constant : Bool) :
    Plain (declare scope name value constant) :=
  .bind (.onStore _ _ _) fun _ => .pure value

theorem assign_plain (scope : Nat) (name : Name) (value : Value) :
    Plain (assign scope name value) :=
  .bind (.onStore _ _ _) fun _ => .pure value

theorem newScope_plain (parent : Option Nat) : Plain (newScope parent) := fun _ _ _ _ => rfl

theorem newObject_plain (fields : Table Value) : Plain (newObject fields) := fun _ _ _ _ => rfl

theorem getField_plain (object : Nat) (key : Text) : Plain (getField object key) :=
  fun _ _ _ _ => rfl

theorem setField_plain (object : Nat) (key : Text) (value : Value) :
    Plain (setField object key value) := fun _ _ _ _ => rfl

theorem asObject_plain (line : Nat) (value : Value) : Plain (asObject line value) := by
  cases value <;> exact fun _ _ _ _ => rfl

theorem asKey_plain (line : Nat) (value : Value) : Plain (asKey line value) := by
  cases value <;> exact fun _ _ _ _ => rfl

theorem asCondition_plain (line : Nat) (value : Value) : Plain (asCondition line value) := by
  cases value <;> exact fun _ _ _ _ => rfl

theorem applyOperator_plain (op : Operator) (line : Nat) (left right : Value) :
    Plain (applyOperator op line left right) := by
  cases left <;> cases right <;> exact fun _ _ _ _ => rfl

theorem perform_plain (scope line : Nat) (action : HostAction) :
    Plain (perform scope line action) := by
  induction action with
  | done value => exact .pure _
  | fail cause => exact .fail _ _ _
  | raise error => exact fun _ _ _ _ => rfl
  | lookup name next ih => exact fun s printed log readings => ih _ s printed log readings
  | declare name value constant next ih =>
      intro s printed log readings
      simp only [perform]
      cases s.store.declare scope name value constant with
      | error e => exact ih (.error e) s printed log readings
      | ok store => exact ih (.ok value) { s with store } printed log readings
  | display value next ih => exact fun s printed log readings => ih _ s printed log readings

end Evaluator

namespace Comparison

variable {left right : Host} (K : Comparison left right)
include K

theorem step {α : Type} {x : Eval α} (h : Plain x) : K.Holds x (.step x) :=
  K.plain h (Course.step_quiet x)

theorem native (scope line : Nat) (arguments : List Value) (function : Native) :
    K.Holds (callNative left scope line arguments function)
      (nativeCourse right scope line arguments function) := by
  cases function with
  | print => exact K.print scope line arguments
  | time => exact K.time scope line arguments
  | gate gate =>
      refine K.step ?_
      simp only [callNative]
      split
      · exact .pure _
      · exact .fail _ _ _
  | host name =>
      have hp : Plain (callNative right scope line arguments (.host name)) := by
        simp only [callNative]
        split
        · exact perform_plain _ _ _
        · exact .pure _
      have hx : callNative left scope line arguments (.host name) =
          callNative right scope line arguments (.host name) := by
        simp only [callNative, K.functions]
      rw [hx]
      exact K.plain hp fun _ => ⟨rfl, rfl⟩

theorem parameters (scope : Nat) (names : List Name) (values : List Value) :
    K.Holds (bindParameters scope names values) (parametersCourse scope names values) := by
  induction names generalizing values with
  | nil => exact K.step (.pure ())
  | cons name names ih =>
      cases values with
      | nil => exact K.bind (K.step (declare_plain _ _ _ _)) fun _ => ih []
      | cons value values => exact K.bind (K.step (declare_plain _ _ _ _)) fun _ => ih values

/-- The comparison covers every evaluation with this fuel. -/
structure HoldsAt (n : Nat) : Prop where
  expr : ∀ (scope : Nat) (e : Expr), K.Holds (evalExpr left n scope e) (exprCourse right n scope e)
  each : ∀ (scope : Nat) (es : List Expr),
    K.Holds (evalEach left n scope es) (eachCourse right n scope es)
  properties : ∀ (scope : Nat) (ps : List Property) (fields : Table Value),
    K.Holds (evalProperties left n scope ps fields) (propertiesCourse right n scope ps fields)
  call : ∀ (function : Function) (closure : Nat) (arguments : List Value),
    K.Holds (callFunction left n function closure arguments)
      (callCourse right n function closure arguments)
  stmt : ∀ (scope : Nat) (s : Stmt), K.Holds (execStmt left n scope s) (stmtCourse right n scope s)
  clauses : ∀ (scope line : Nat) (cs : List Clause) (otherwise : List Stmt),
    K.Holds (execClauses left n scope line cs otherwise)
      (clausesCourse right n scope line cs otherwise)
  block : ∀ (scope : Nat) (last : Value) (ss : List Stmt),
    K.Holds (execBlock left n scope last ss) (blockCourse right n scope last ss)

theorem HoldsAt.zero : K.HoldsAt 0 where
  expr _ _ := K.step .exhausted
  each _ _ := K.step .exhausted
  properties _ _ _ := K.step .exhausted
  call _ _ _ := K.step .exhausted
  stmt _ _ := K.step .exhausted
  clauses _ _ _ _ := K.step .exhausted
  block _ _ _ := K.step .exhausted

namespace HoldsAt

variable {K} {n : Nat} (h : K.HoldsAt n)
include h

theorem expr_succ (scope : Nat) (e : Expr) :
    K.Holds (evalExpr left (n + 1) scope e) (exprCourse right (n + 1) scope e) := by
  cases e with
  | assign target line value =>
      unfold exprCourse
      refine K.bind (h.expr scope value) fun v => ?_
      cases target with
      | name name => exact K.step (assign_plain scope name v)
      | member object line key =>
          refine K.bind (h.expr scope object) fun o => ?_
          refine K.bind (K.step (asObject_plain line o)) fun id => ?_
          exact K.withUses (K.step (setField_plain id key.text v))
      | index object line key =>
          refine K.bind (h.expr scope object) fun o => ?_
          refine K.bind (K.step (asObject_plain line o)) fun id => ?_
          refine K.bind (h.expr scope key) fun k => ?_
          refine K.bind (K.step (asKey_plain line k)) fun t => ?_
          exact K.withUses (K.step (setField_plain id t v))
      | _ => exact K.step (.fail line .invalidTarget [])
  | binary left op line right =>
      unfold exprCourse
      refine K.bind (h.expr scope left) fun l => ?_
      refine K.bind (h.expr scope right) fun r => ?_
      exact K.step (applyOperator_plain op line l r)
  | call callee line arguments =>
      unfold exprCourse
      refine K.bind (h.expr scope callee) fun v => K.bind (h.each scope arguments) fun vs => ?_
      cases v with
      | native function => exact K.native scope line vs function
      | func function closure => exact h.call function closure vs
      | _ => exact K.step (.fail line .notCallable _)
  | member object line key =>
      unfold exprCourse
      refine K.bind (h.expr scope object) fun o => ?_
      refine K.bind (K.step (asObject_plain line o)) fun id => ?_
      exact K.withUses (K.step (getField_plain id key.text))
  | index object line key =>
      unfold exprCourse
      refine K.bind (h.expr scope object) fun o => ?_
      refine K.bind (K.step (asObject_plain line o)) fun id => ?_
      refine K.bind (h.expr scope key) fun k => ?_
      refine K.bind (K.step (asKey_plain line k)) fun t => ?_
      exact K.withUses (K.step (getField_plain id t))
  | name name => exact K.step (lookup_plain scope name)
  | number value => exact K.step (.pure (Value.number value))
  | text value => exact K.step (.pure (Value.text value))
  | bool value => exact K.step (.pure (Value.bool value))
  | object properties =>
      unfold exprCourse
      refine K.withUses (K.bind (h.properties scope properties .empty) fun fields => ?_)
      exact K.step (newObject_plain fields)

theorem each_succ (scope : Nat) (es : List Expr) :
    K.Holds (evalEach left (n + 1) scope es) (eachCourse right (n + 1) scope es) := by
  cases es with
  | nil => exact K.step (.pure [])
  | cons e rest =>
      refine K.bind (h.expr scope e) fun v => K.bind (h.each scope rest) fun vs => ?_
      exact K.step (.pure (v :: vs))

theorem properties_succ (scope : Nat) (ps : List Property) (fields : Table Value) :
    K.Holds (evalProperties left (n + 1) scope ps fields)
      (propertiesCourse right (n + 1) scope ps fields) := by
  match ps with
  | [] => exact K.step (.pure fields)
  | .shorthand key :: rest =>
      refine K.bind (K.step (lookup_plain scope key)) fun v => ?_
      exact h.properties scope rest (fields.set key.text v)
  | .pair key value :: rest =>
      refine K.bind (h.expr scope value) fun v => ?_
      exact h.properties scope rest (fields.set key.text v)

theorem call_succ (function : Function) (closure : Nat) (arguments : List Value) :
    K.Holds (callFunction left (n + 1) function closure arguments)
      (callCourse right (n + 1) function closure arguments) := by
  unfold callCourse
  refine K.bind (K.call ⟨function, closure, arguments⟩) fun _ => ?_
  refine K.bind (K.step (newScope_plain (some closure))) fun scope => ?_
  refine K.bind (K.parameters scope function.parameters arguments) fun _ => ?_
  exact h.block scope .null function.body

theorem stmt_succ (scope : Nat) (s : Stmt) :
    K.Holds (execStmt left (n + 1) scope s) (stmtCourse right (n + 1) scope s) := by
  cases s with
  | expr e => exact h.expr scope e
  | declare constant name type value =>
      cases value with
      | none => exact K.step (declare_plain scope name .null constant)
      | some e =>
          refine K.bind (h.expr scope e) fun v => ?_
          exact K.step (declare_plain scope name v constant)
  | func name parameters body => exact K.step (declare_plain scope name _ true)
  | branch line first others otherwise => exact h.clauses scope line (first :: others) otherwise

theorem clauses_succ (scope line : Nat) (cs : List Clause) (otherwise : List Stmt) :
    K.Holds (execClauses left (n + 1) scope line cs otherwise)
      (clausesCourse right (n + 1) scope line cs otherwise) := by
  match cs, otherwise with
  | [], [] => exact K.step (.pure Value.null)
  | [], s :: ss =>
      refine K.bind (K.step (newScope_plain (some scope))) fun inner => ?_
      exact h.block inner .null (s :: ss)
  | .mk condition body :: rest, otherwise =>
      unfold clausesCourse
      refine K.bind (h.expr scope condition) fun v => ?_
      refine K.bind (K.step (asCondition_plain line v)) fun holds => ?_
      cases holds with
      | true =>
          refine K.bind (K.step (newScope_plain (some scope))) fun inner => ?_
          exact h.block inner .null body
      | false => exact h.clauses scope line rest otherwise

theorem block_succ (scope : Nat) (last : Value) (ss : List Stmt) :
    K.Holds (execBlock left (n + 1) scope last ss) (blockCourse right (n + 1) scope last ss) := by
  cases ss with
  | nil => exact K.step (.pure last)
  | cons s rest => exact K.bind (h.stmt scope s) fun v => h.block scope v rest

theorem succ : K.HoldsAt (n + 1) where
  expr := h.expr_succ
  each := h.each_succ
  properties := h.properties_succ
  call := h.call_succ
  stmt := h.stmt_succ
  clauses := h.clauses_succ
  block := h.block_succ

end HoldsAt

theorem holdsAt (n : Nat) : K.HoldsAt n := by
  induction n with
  | zero => exact .zero K
  | succ n ih => exact ih.succ

end Comparison

end Scripting
