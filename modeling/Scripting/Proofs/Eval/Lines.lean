import Scripting.Proofs.Eval.Fuel
import Scripting.Proofs.Store.Lines

/-!
Evaluation and lines. Lines are looked at only to tell where an error is: when the lines of
a program and of the functions in its store are changed, the evaluation goes the same way,
and an error is told at the changed line of the token that it was told at before. The log
so far has no influence either.
-/

namespace Scripting

/-- A change of lines, and a log that comes before. -/
structure Change where
  lines : Nat → Nat
  log : Array Event

/-- The state with its lines changed and the log put first. -/
def State.under (c : Change) (s : State) : State :=
  { s with store := s.store.mapLines c.lines, log := c.log ++ s.log }

/-- How an evaluation ends under every change: an error stands at the line of a token, or
at a line that a host function gave it. -/
inductive Ending (α : Type) where
  | ok (value : α) (s : State)
  | token (line : Nat) (cause : RuntimeError.Cause) (detail : Text) (s : State)
  | raised (e : RuntimeError) (s : State)
  | exhausted (s : State)

namespace Ending

variable {α : Type}

def under (m : (Nat → Nat) → α → α) (c : Change) : Ending α → Outcome α × State
  | ok value s => (.ok (m c.lines value), s.under c)
  | token line cause detail s => (.error ⟨c.lines line, cause, detail⟩, s.under c)
  | raised e s => (.error e, s.under c)
  | exhausted s => (.exhausted, s.under c)

theorem under_log (m : (Nat → Nat) → α → α) (f : Nat → Nat) (log log' : Array Event)
    (r : Ending α) : r.under m ⟨f, log'⟩ =
      ((r.under m ⟨f, log⟩).1,
        { (r.under m ⟨f, log⟩).2 with log := (r.under m ⟨f, log'⟩).2.log }) := by
  cases r <;> rfl

end Ending

/-- Results that keep no lines. -/
def still {α : Type} (_ : Nat → Nat) (a : α) : α := a

/-- The computations of a family end alike when they start alike, up to the change. -/
def Uniform {α : Type} (m : (Nat → Nat) → α → α) (x : Change → Eval α) : Prop :=
  ∀ s : State, ∃ r : Ending α, ∀ c, x c (s.under c) = r.under m c

/-- Host functions whose actions do not depend on lines. -/
inductive HostAction.Blind : ((Nat → Nat) → HostAction) → Prop
  | done (value : Option Value) : Blind fun f => .done (value.map (Value.mapLines f))
  | fail (cause : RuntimeError.Cause) : Blind fun _ => .fail cause
  | raise (e : RuntimeError) : Blind fun _ => .raise e
  | lookup (name : Text) {next : (Nat → Nat) → Except BindingError Value → HostAction}
      (h : ∀ r : Except BindingError Value, Blind fun f => next f (r.map (Value.mapLines f))) :
      Blind fun f => .lookup name (next f)
  | declare (name : Text) (value : Value) (constant : Bool)
      {next : (Nat → Nat) → Except BindingError Value → HostAction}
      (h : ∀ r : Except BindingError Value, Blind fun f => next f (r.map (Value.mapLines f))) :
      Blind fun f => .declare name (value.mapLines f) constant (next f)
  | display (value : Value) {next : (Nat → Nat) → Text → HostAction}
      (h : ∀ t, Blind fun f => next f t) : Blind fun f => .display (value.mapLines f) (next f)

/-- The functions that the host adds do not look at the lines of their arguments. -/
def Host.Blind (host : Host) : Prop :=
  ∀ name action, host.functions.get? name = some action →
    ∀ arguments : List Value, HostAction.Blind fun f => action (arguments.map (Value.mapLines f))

namespace Uniform

variable {α β : Type} {m : (Nat → Nat) → α → α} {m' : (Nat → Nat) → β → β}

theorem pure (a : α) : Uniform m fun c => (Pure.pure (m c.lines a) : Eval α) :=
  fun s => ⟨.ok a s, fun _ => rfl⟩

theorem exhausted : Uniform m fun _ => Eval.exhausted := fun s => ⟨.exhausted s, fun _ => rfl⟩

theorem fail (line : Nat) (cause : RuntimeError.Cause) (detail : Text) :
    Uniform m fun c => Eval.fail (c.lines line) cause detail :=
  fun s => ⟨.token line cause detail s, fun _ => rfl⟩

theorem bind {x : Change → Eval α} {f : Change → α → Eval β} (hx : Uniform m x)
    (hf : ∀ a, Uniform m' fun c => f c (m c.lines a)) :
    Uniform m' fun c => x c >>= f c := by
  intro s
  obtain ⟨r, hr⟩ := hx s
  cases r with
  | ok a s' =>
      obtain ⟨r', hr'⟩ := hf a s'
      exact ⟨r', fun c => (Eval.bind_ok (hr c)).trans (hr' c)⟩
  | token line cause detail s' =>
      exact ⟨.token line cause detail s', fun c => Eval.bind_error (hr c)⟩
  | raised e s' => exact ⟨.raised e s', fun c => Eval.bind_error (hr c)⟩
  | exhausted s' => exact ⟨.exhausted s', fun c => Eval.bind_exhausted (hr c)⟩

theorem onStore (line : Nat) (look : Store → Except BindingError α)
    (change : (Nat → Nat) → α → Store → Store) (changed : α → Store → Store)
    (hl : ∀ f s, look (s.mapLines f) = (look s).map (m f))
    (hc : ∀ f a s, change f (m f a) (s.mapLines f) = (changed a s).mapLines f) :
    Uniform m fun c => Eval.onStore (c.lines line) look (change c.lines) := by
  intro s
  cases h : look s.store with
  | ok a =>
      refine ⟨.ok a { s with store := changed a s.store }, fun c => ?_⟩
      simp only [Eval.onStore, State.under, hl, h, Except.map, hc, Ending.under]
  | error e =>
      refine ⟨.token line (.binding e) [] s, fun c => ?_⟩
      simp only [Eval.onStore, State.under, hl, h, Except.map, Ending.under]

end Uniform

namespace Evaluator

theorem lookup_uniform (scope : Nat) (name : Name) :
    Uniform Value.mapLines fun c => lookup scope (name.mapLine c.lines) :=
  .onStore name.line (·.lookup scope name.text) (fun _ _ s => s) (fun _ s => s)
    (fun f s => s.lookup_mapLines f scope name.text) fun _ _ _ => rfl

theorem declare_uniform (scope : Nat) (name : Name) (value : Value) (constant : Bool) :
    Uniform Value.mapLines fun c =>
      declare scope (name.mapLine c.lines) (value.mapLines c.lines) constant := by
  have hd : Uniform still fun c => Eval.onStore (c.lines name.line)
      (·.declarable scope name.text)
      fun _ s => s.bind scope name.text ⟨value.mapLines c.lines, constant⟩ := by
    refine .onStore name.line _ (fun f _ s => s.bind scope name.text ⟨value.mapLines f, constant⟩)
      (fun _ s => s.bind scope name.text ⟨value, constant⟩) ?_ ?_
    · intro f s
      rw [Store.declarable_mapLines]
      cases s.declarable scope name.text <;> rfl
    · intro f _ s
      exact s.bind_mapLines f scope name.text ⟨value, constant⟩
  exact hd.bind fun _ => .pure value

theorem assign_uniform (scope : Nat) (name : Name) (value : Value) :
    Uniform Value.mapLines fun c =>
      assign scope (name.mapLine c.lines) (value.mapLines c.lines) := by
  have ha : Uniform still fun c => Eval.onStore (c.lines name.line)
      (·.assignable scope name.text)
      fun owner s => s.bind owner name.text ⟨value.mapLines c.lines, false⟩ := by
    refine .onStore name.line _ (fun f owner s => s.bind owner name.text ⟨value.mapLines f, false⟩)
      (fun owner s => s.bind owner name.text ⟨value, false⟩) ?_ ?_
    · intro f s
      rw [Store.assignable_mapLines]
      cases s.assignable scope name.text <;> rfl
    · intro f owner s
      exact s.bind_mapLines f owner name.text ⟨value, false⟩
  exact ha.bind fun _ => .pure value

theorem newScope_uniform (parent : Option Nat) : Uniform still fun _ => newScope parent := by
  intro s
  refine ⟨.ok (s.store.newScope parent).1 { s with store := (s.store.newScope parent).2 },
    fun c => ?_⟩
  simp only [newScope, State.under, Store.newScope_mapLines, Ending.under, still]

theorem newObject_uniform (fields : Table Value) :
    Uniform Value.mapLines fun c => newObject (fields.map (Value.mapLines c.lines)) := by
  intro s
  refine ⟨.ok (.object (s.store.newObject fields).1)
    { s with store := (s.store.newObject fields).2 }, fun c => ?_⟩
  simp only [newObject, State.under, Store.newObject_mapLines, Ending.under, Value.mapLines]

theorem getField_uniform (object : Nat) (key : Text) :
    Uniform Value.mapLines fun _ => getField object key := by
  intro s
  refine ⟨.ok (((s.store.fields object).get? key).getD .null) s, fun c => ?_⟩
  simp only [getField, State.under, Store.fields_mapLines, Table.get?_map, Ending.under]
  cases (s.store.fields object).get? key <;> rfl

theorem setField_uniform (object : Nat) (key : Text) (value : Value) :
    Uniform Value.mapLines fun c => setField object key (value.mapLines c.lines) := by
  intro s
  refine ⟨.ok value { s with store := s.store.setField object key value }, fun c => ?_⟩
  simp only [setField, State.under, Store.setField_mapLines, Ending.under]

theorem asObject_uniform (line : Nat) (v : Value) :
    Uniform still fun c => asObject (c.lines line) (v.mapLines c.lines) := by
  cases v with
  | object id => exact .pure id
  | _ => exact .fail line _ _

theorem asKey_uniform (line : Nat) (v : Value) :
    Uniform still fun c => asKey (c.lines line) (v.mapLines c.lines) := by
  cases v with
  | text t => exact .pure t
  | number n => exact .pure n.display
  | _ => exact .fail line _ _

theorem asCondition_uniform (line : Nat) (v : Value) :
    Uniform still fun c => asCondition (c.lines line) (v.mapLines c.lines) := by
  cases v with
  | bool b => exact .pure b
  | _ => exact .fail line _ _

theorem applyOperator_uniform (op : Operator) (line : Nat) (l r : Value) :
    Uniform Value.mapLines fun c =>
      applyOperator op (c.lines line) (l.mapLines c.lines) (r.mapLines c.lines) := by
  have hm (f : Nat → Nat) (line : Nat) :
      applyOperator op line (l.mapLines f) (r.mapLines f) = applyOperator op line l r := by
    cases l <;> cases r <;> rfl
  simp only [hm]
  simp only [applyOperator]
  split
  · next x y => exact .pure (Value.number (op.apply x y))
  · exact .fail line _ _

theorem gate_inputs_mapLines (f : Nat → Nat) (gate : Gate) (vs : List Value) :
    gate.inputs (vs.map (Value.mapLines f)) = gate.inputs vs := by
  induction vs with
  | nil => rfl
  | cons v vs ih =>
      cases v with
      | bool b => simp only [List.map_cons, Value.mapLines, Gate.inputs, ih]
      | _ => rfl

theorem gate_apply_mapLines (f : Nat → Nat) (gate : Gate) (vs : List Value) :
    gate.apply (vs.map (Value.mapLines f)) = gate.apply vs := by
  rw [Gate.apply, Gate.apply, List.length_map, gate_inputs_mapLines]

theorem gate_apply_bool {gate : Gate} {vs : List Value} {v : Value} (h : gate.apply vs = .ok v) :
    ∃ b, v = .bool b := by
  rw [Gate.apply] at h
  split at h
  · cases hi : gate.inputs vs with
    | error cause => rw [hi] at h; cases h
    | ok bs => rw [hi] at h; cases h; exact ⟨_, rfl⟩
  · cases h

theorem printLine_uniform (host : Host) (line : Nat) (text : Text) :
    Uniform Value.mapLines fun c => printLine host (c.lines line) text := by
  intro s
  by_cases h : host.printLimit.all (s.printed.size < ·) = true
  · refine ⟨.ok .null { s with printed := s.printed.push text }, fun c => ?_⟩
    exact if_pos h
  · exact ⟨.token line .printerClosed [] s, fun c => if_neg h⟩

theorem display_under (c : Change) (s : State) (v : Value) :
    (s.under c).store.display (v.mapLines c.lines) = s.store.display v :=
  s.store.display_mapLines c.lines v

theorem perform_uniform {action : (Nat → Nat) → HostAction} (h : HostAction.Blind action)
    (scope line : Nat) :
    Uniform Value.mapLines fun c => perform scope (c.lines line) (action c.lines) := by
  induction h with
  | done value =>
      intro s
      refine ⟨.ok (value.getD .null) s, fun c => ?_⟩
      cases value <;> rfl
  | fail cause => exact .fail line cause []
  | raise e => exact fun s => ⟨.raised e s, fun _ => rfl⟩
  | @lookup name next h ih =>
      intro s
      obtain ⟨r, hr⟩ := ih (s.store.lookup scope name) s
      refine ⟨r, fun c => Eq.trans ?_ (hr c)⟩
      exact congrArg (fun v => perform scope (c.lines line) (next c.lines v) (s.under c))
        (s.store.lookup_mapLines c.lines scope name)
  | @declare name value constant next h ih =>
      intro s
      have hd (c : Change) := s.store.declare_mapLines c.lines scope name value constant
      cases hs : s.store.declare scope name value constant with
      | ok store =>
          obtain ⟨r, hr⟩ := ih (.ok value) { s with store }
          refine ⟨r, fun c => Eq.trans ?_ (hr c)⟩
          simp only [perform, State.under, hd c, hs, Except.map]
      | error e =>
          obtain ⟨r, hr⟩ := ih (.error e) s
          refine ⟨r, fun c => Eq.trans ?_ (hr c)⟩
          simp only [perform, State.under, hd c, hs, Except.map]
  | @display value next h ih =>
      intro s
      obtain ⟨r, hr⟩ := ih (s.store.display value) s
      refine ⟨r, fun c => Eq.trans ?_ (hr c)⟩
      exact congrArg (fun t => perform scope (c.lines line) (next c.lines t) (s.under c))
        (display_under c s value)

section
variable {host : Host} (hb : host.Blind)
include hb

theorem callNative_uniform (scope line : Nat) (arguments : List Value) (function : Native) :
    Uniform Value.mapLines fun c => callNative host scope (c.lines line)
      (arguments.map (Value.mapLines c.lines)) function := by
  cases function with
  | print =>
      intro s
      obtain ⟨r, hr⟩ := printLine_uniform host line
        (Text.join (Text.utf8 " ") (arguments.map s.store.display)) s
      refine ⟨r, fun c => Eq.trans ?_ (hr c)⟩
      have hd : (s.under c).store.display ∘ Value.mapLines c.lines = s.store.display :=
        funext (display_under c s)
      simp only [callNative, List.map_map, hd]
  | time =>
      exact fun s => ⟨.ok (.number (host.clock s.readings)) { s with readings := s.readings + 1 },
        fun _ => rfl⟩
  | gate gate =>
      simp only [callNative, gate_apply_mapLines]
      cases ha : gate.apply arguments with
      | error cause => exact .fail line cause []
      | ok value =>
          obtain ⟨b, rfl⟩ := gate_apply_bool ha
          exact .pure (Value.bool b)
  | host name =>
      simp only [callNative]
      cases ha : host.functions.get? name with
      | none => exact .pure Value.null
      | some action => exact perform_uniform (hb name action ha arguments) scope line

end

theorem trace_uniform (host : Host) (event : Event) :
    Uniform still fun _ => Eval.trace host event := by
  intro s
  refine ⟨.ok () (s.trace host event), fun c => ?_⟩
  by_cases ht : host.tracing = true
  · simp [Eval.trace, State.trace, State.under, Ending.under, ht, still, Array.push_append]
  · simp [Eval.trace, State.trace, State.under, Ending.under, ht, still]

theorem bindParameters_uniform (scope : Nat) (names : List Name) (values : List Value) :
    Uniform still fun c => bindParameters scope (names.map (Name.mapLine c.lines))
      (values.map (Value.mapLines c.lines)) := by
  induction names generalizing values with
  | nil =>
      simp only [List.map_nil, bindParameters]
      exact .pure ()
  | cons name names ih =>
      cases values with
      | nil =>
          simp only [List.map_cons, List.map_nil, bindParameters]
          exact (declare_uniform scope name .null false).bind fun _ => ih []
      | cons value values =>
          simp only [List.map_cons, bindParameters]
          exact (declare_uniform scope name value false).bind fun _ => ih values

/-- With this fuel, every evaluation is uniform. -/
structure UniformAt (host : Host) (n : Nat) : Prop where
  expr : ∀ (scope : Nat) (e : Expr),
    Uniform Value.mapLines fun c => evalExpr host n scope (e.mapLines c.lines)
  each : ∀ (scope : Nat) (es : List Expr), Uniform (fun f => List.map (Value.mapLines f)) fun c =>
    evalEach host n scope (Expr.mapLinesEach c.lines es)
  properties : ∀ (scope : Nat) (ps : List Property) (fields : Table Value),
    Uniform (fun f => Table.map (Value.mapLines f)) fun c => evalProperties host n scope
      (Property.mapLinesEach c.lines ps) (fields.map (Value.mapLines c.lines))
  call : ∀ (function : Function) (closure : Nat) (arguments : List Value),
    Uniform Value.mapLines fun c => callFunction host n (function.mapLines c.lines) closure
      (arguments.map (Value.mapLines c.lines))
  stmt : ∀ (scope : Nat) (s : Stmt),
    Uniform Value.mapLines fun c => execStmt host n scope (s.mapLines c.lines)
  clauses : ∀ (scope line : Nat) (cs : List Clause) (otherwise : List Stmt),
    Uniform Value.mapLines fun c => execClauses host n scope (c.lines line)
      (Clause.mapLinesEach c.lines cs) (Stmt.mapLinesEach c.lines otherwise)
  block : ∀ (scope : Nat) (last : Value) (ss : List Stmt),
    Uniform Value.mapLines fun c => execBlock host n scope (last.mapLines c.lines)
      (Stmt.mapLinesEach c.lines ss)

namespace UniformAt

variable {host : Host} {n : Nat}

theorem zero (host : Host) : UniformAt host 0 where
  expr := by intro scope e; simp only [evalExpr]; exact .exhausted
  each := by intro scope es; simp only [evalEach]; exact .exhausted
  properties := by intro scope ps fields; simp only [evalProperties]; exact .exhausted
  call := by intro function closure arguments; simp only [callFunction]; exact .exhausted
  stmt := by intro scope s; simp only [execStmt]; exact .exhausted
  clauses := by intro scope line cs otherwise; simp only [execClauses]; exact .exhausted
  block := by intro scope last ss; simp only [execBlock]; exact .exhausted

variable (h : UniformAt host n)
include h

theorem expr_succ (hb : host.Blind) (scope : Nat) (e : Expr) :
    Uniform Value.mapLines fun c => evalExpr host (n + 1) scope (e.mapLines c.lines) := by
  cases e with
  | assign target line value =>
      simp only [Expr.mapLines, evalExpr]
      refine (h.expr scope value).bind fun v => ?_
      cases target with
      | name name => exact assign_uniform scope name v
      | member object line key =>
          exact (h.expr scope object).bind fun o => (asObject_uniform line o).bind fun id =>
            setField_uniform id key.text v
      | index object line key =>
          exact (h.expr scope object).bind fun o => (asObject_uniform line o).bind fun id =>
            (h.expr scope key).bind fun k => (asKey_uniform line k).bind fun t =>
              setField_uniform id t v
      | _ => exact .fail line .invalidTarget []
  | binary left op line right =>
      simp only [Expr.mapLines, evalExpr]
      exact (h.expr scope left).bind fun l => (h.expr scope right).bind fun r =>
        applyOperator_uniform op line l r
  | call callee line arguments =>
      simp only [Expr.mapLines, evalExpr]
      refine (h.expr scope callee).bind fun v => (h.each scope arguments).bind fun vs => ?_
      cases v with
      | native function => exact callNative_uniform hb scope line vs function
      | func function closure => exact h.call function closure vs
      | _ => exact .fail line .notCallable _
  | member object line key =>
      simp only [Expr.mapLines, evalExpr]
      exact (h.expr scope object).bind fun o => (asObject_uniform line o).bind fun id =>
        getField_uniform id key.text
  | index object line key =>
      simp only [Expr.mapLines, evalExpr]
      exact (h.expr scope object).bind fun o => (asObject_uniform line o).bind fun id =>
        (h.expr scope key).bind fun k => (asKey_uniform line k).bind fun t => getField_uniform id t
  | name name =>
      simp only [Expr.mapLines, evalExpr]
      exact lookup_uniform scope name
  | number value =>
      simp only [Expr.mapLines, evalExpr]
      exact .pure (Value.number value)
  | text value =>
      simp only [Expr.mapLines, evalExpr]
      exact .pure (Value.text value)
  | bool value =>
      simp only [Expr.mapLines, evalExpr]
      exact .pure (Value.bool value)
  | object properties =>
      simp only [Expr.mapLines, evalExpr]
      exact (h.properties scope properties .empty).bind fun fields => newObject_uniform fields

theorem each_succ (scope : Nat) (es : List Expr) :
    Uniform (fun f => List.map (Value.mapLines f)) fun c =>
      evalEach host (n + 1) scope (Expr.mapLinesEach c.lines es) := by
  cases es with
  | nil =>
      simp only [Expr.mapLinesEach, evalEach]
      exact .pure []
  | cons e rest =>
      simp only [Expr.mapLinesEach, evalEach]
      exact (h.expr scope e).bind fun v => (h.each scope rest).bind fun vs => .pure (v :: vs)

theorem properties_succ (scope : Nat) (ps : List Property) (fields : Table Value) :
    Uniform (fun f => Table.map (Value.mapLines f)) fun c =>
      evalProperties host (n + 1) scope (Property.mapLinesEach c.lines ps)
        (fields.map (Value.mapLines c.lines)) := by
  match ps with
  | [] =>
      simp only [Property.mapLinesEach, evalProperties]
      exact .pure fields
  | .shorthand key :: rest =>
      simp only [Property.mapLinesEach, Property.mapLines, evalProperties]
      refine (lookup_uniform scope key).bind fun v => ?_
      simp only [Table.set_map]
      exact h.properties scope rest (fields.set key.text v)
  | .pair key value :: rest =>
      simp only [Property.mapLinesEach, Property.mapLines, evalProperties]
      refine (h.expr scope value).bind fun v => ?_
      simp only [Table.set_map]
      exact h.properties scope rest (fields.set key.text v)

theorem call_succ (function : Function) (closure : Nat) (arguments : List Value) :
    Uniform Value.mapLines fun c => callFunction host (n + 1) (function.mapLines c.lines) closure
      (arguments.map (Value.mapLines c.lines)) := by
  simp only [callFunction, List.length_map]
  refine (trace_uniform host (.called function.name.text arguments.length)).bind fun _ => ?_
  refine (newScope_uniform (some closure)).bind fun scope => ?_
  refine (bindParameters_uniform scope function.parameters arguments).bind fun _ => ?_
  exact h.block scope .null function.body

theorem stmt_succ (scope : Nat) (s : Stmt) :
    Uniform Value.mapLines fun c => execStmt host (n + 1) scope (s.mapLines c.lines) := by
  cases s with
  | expr e =>
      simp only [Stmt.mapLines, execStmt]
      exact h.expr scope e
  | declare constant name type value =>
      cases value with
      | none =>
          simp only [Stmt.mapLines, Option.map_none, execStmt]
          exact declare_uniform scope name .null constant
      | some e =>
          simp only [Stmt.mapLines, Option.map_some, execStmt]
          exact (h.expr scope e).bind fun v => declare_uniform scope name v constant
  | func name parameters body =>
      simp only [Stmt.mapLines, execStmt]
      exact declare_uniform scope name (.func ⟨name, parameters, body⟩ scope) true
  | branch line first others otherwise =>
      simp only [Stmt.mapLines, execStmt]
      exact h.clauses scope line (first :: others) otherwise

theorem clauses_succ (scope line : Nat) (cs : List Clause) (otherwise : List Stmt) :
    Uniform Value.mapLines fun c =>
      execClauses host (n + 1) scope (c.lines line) (Clause.mapLinesEach c.lines cs)
        (Stmt.mapLinesEach c.lines otherwise) := by
  match cs, otherwise with
  | [], [] =>
      simp only [Clause.mapLinesEach, Stmt.mapLinesEach, execClauses]
      exact .pure Value.null
  | [], s :: ss =>
      simp only [Clause.mapLinesEach, Stmt.mapLinesEach, execClauses]
      exact (newScope_uniform (some scope)).bind fun inner => h.block inner .null (s :: ss)
  | .mk condition body :: rest, otherwise =>
      simp only [Clause.mapLinesEach, Clause.mapLines, execClauses]
      refine (h.expr scope condition).bind fun v => ?_
      refine (asCondition_uniform line v).bind fun holds => ?_
      cases holds with
      | true => exact (newScope_uniform (some scope)).bind fun inner => h.block inner .null body
      | false => exact h.clauses scope line rest otherwise

theorem block_succ (scope : Nat) (last : Value) (ss : List Stmt) :
    Uniform Value.mapLines fun c =>
      execBlock host (n + 1) scope (last.mapLines c.lines) (Stmt.mapLinesEach c.lines ss) := by
  cases ss with
  | nil =>
      simp only [Stmt.mapLinesEach, execBlock]
      exact .pure last
  | cons s rest =>
      simp only [Stmt.mapLinesEach, execBlock]
      exact (h.stmt scope s).bind fun v => h.block scope v rest

theorem succ (hb : host.Blind) : UniformAt host (n + 1) where
  expr := h.expr_succ hb
  each := h.each_succ
  properties := h.properties_succ
  call := h.call_succ
  stmt := h.stmt_succ
  clauses := h.clauses_succ
  block := h.block_succ

end UniformAt

theorem uniformAt {host : Host} (hb : host.Blind) (n : Nat) : UniformAt host n := by
  induction n with
  | zero => exact .zero host
  | succ n ih => exact ih.succ hb

/-- Even lines stand for themselves, halved; odd ones are halved and then changed. So the
lines of a program can be told from those that its store already holds. -/
def marked (f : Nat → Nat) (n : Nat) : Nat := if n % 2 = 0 then n / 2 else f (n / 2)

theorem marked_even (f : Nat → Nat) (n : Nat) : marked f (2 * n) = n := by
  rw [marked, if_pos (by omega), Nat.mul_div_cancel_left n (by omega)]

theorem marked_odd (f : Nat → Nat) (n : Nat) : marked f (2 * n + 1) = f n := by
  rw [marked, if_neg (by omega), show (2 * n + 1) / 2 = n by omega]

section
variable {host : Host} (hb : host.Blind) (scope : Nat) (last : Value) (ss : List Stmt) (s : State)
include hb

/-- A block evaluated on whatever lines and after whatever log. -/
theorem block_marked (n : Nat) : ∃ r : Ending Value, ∀ f log,
    execBlock host n scope last (Stmt.mapLinesEach f ss) { s with log } =
      r.under Value.mapLines ⟨marked f, log⟩ := by
  obtain ⟨r, hr⟩ := (uniformAt hb n).block scope (last.mapLines (2 * ·))
    (Stmt.mapLinesEach (2 * · + 1) ss)
    { s with store := s.store.mapLines (2 * ·), log := #[] }
  refine ⟨r, fun f log => ?_⟩
  have h := hr ⟨marked f, log⟩
  simpa only [State.under, Value.mapLines_mapLines, Store.mapLines_mapLines,
    Stmt.mapLinesEach_mapLinesEach, marked_even, marked_odd, Value.mapLines_id, Store.mapLines_id,
    Array.append_empty] using h

variable {scope last ss s}

/-- If a block ends on some lines and after some log, then it does so on all. -/
theorem ends_marked {f : Nat → Nat} {log : Array Event} {x : Outcome Value × State}
    (h : Eval.Ends (fun n => execBlock host n scope last (Stmt.mapLinesEach f ss))
      { s with log } x) :
    ∃ r : Ending Value, x = r.under Value.mapLines ⟨marked f, log⟩ ∧ ∀ f log,
      Eval.Ends (fun n => execBlock host n scope last (Stmt.mapLinesEach f ss)) { s with log }
        (r.under Value.mapLines ⟨marked f, log⟩) := by
  obtain ⟨n, rfl, hx⟩ := h
  obtain ⟨r, hr⟩ := block_marked hb scope last ss s n
  dsimp only at hx ⊢
  rw [hr f log] at hx ⊢
  refine ⟨r, rfl, fun f' log' => ⟨n, hr f' log', ?_⟩⟩
  cases r with
  | exhausted s => exact absurd rfl hx
  | _ => exact nofun

theorem ends_log {log : Array Event} {o : Outcome Value} {t : State}
    (h : Eval.Ends (fun n => execBlock host n scope last ss) { s with log } (o, t))
    (log' : Array Event) : ∃ later,
      Eval.Ends (fun n => execBlock host n scope last ss) { s with log := log' }
        (o, { t with log := later }) := by
  rw [← Stmt.mapLinesEach_id ss] at h ⊢
  obtain ⟨r, hx, hr⟩ := ends_marked hb h
  have h' := hr (fun l => l) log'
  rw [Ending.under_log _ _ log, ← hx] at h'
  exact ⟨_, h'⟩

end

end Evaluator

end Scripting
