import Scripting.Builtin
import Scripting.Event
import Scripting.Host
import Scripting.Store.Display

/-!
The evaluator. It passes a state along: the store, the lines printed, the events
logged and the readings of the clock. An error leaves the state as it is at that
moment. Fuel bounds the depth of an evaluation; running out of it is told apart
from values and errors.
-/

namespace Scripting

/-- How an evaluation ends: with a value, with an error, or not within its fuel. -/
inductive Outcome (α : Type) where
  | ok (value : α)
  | error (e : RuntimeError)
  | exhausted

structure State where
  store : Store
  printed : Array Text := #[]
  log : Array Event := #[]
  readings : Nat := 0

/-- The state with an event logged, if events are logged. -/
@[inline] def State.trace (host : Host) (event : Event) (s : State) : State :=
  if host.tracing then { s with log := s.log.push event } else s

def Eval (α : Type) : Type := State → Outcome α × State

namespace Eval

variable {α β : Type}

@[always_inline, inline] def pure (a : α) : Eval α := fun s => (.ok a, s)

/-- Goes on with a value; an error or a lack of fuel is the end. -/
@[always_inline, inline] def bind (x : Eval α) (f : α → Eval β) : Eval β := fun s =>
  match x s with
  | (.ok a, s) => f a s
  | (.error e, s) => (.error e, s)
  | (.exhausted, s) => (.exhausted, s)

instance : Monad Eval where
  pure := Eval.pure
  bind := Eval.bind

def exhausted : Eval α := fun s => (.exhausted, s)

def throw (e : RuntimeError) : Eval α := fun s => (.error e, s)

def fail (line : Nat) (cause : RuntimeError.Cause) (detail : Text) : Eval α :=
  throw ⟨line, cause, detail⟩

/-- Changes the store by what a look at it gives. A broken rule of the scopes is an
error at a line, and changes nothing. -/
@[always_inline, inline] def onStore (line : Nat) (look : Store → Except BindingError α)
    (change : α → Store → Store) : Eval α := fun s =>
  match look s.store with
  | .ok a => (.ok a, { s with store := change a s.store })
  | .error e => (.error ⟨line, .binding e, []⟩, s)

/-- Logs an event, if events are logged. -/
def trace (host : Host) (event : Event) : Eval Unit := fun s => (.ok (), s.trace host event)

end Eval

namespace Evaluator

open Eval (fail onStore trace)

def lookup (scope : Nat) (name : Name) : Eval Value :=
  onStore name.line (·.lookup scope name.text) fun _ s => s

def declare (scope : Nat) (name : Name) (value : Value) (constant : Bool) : Eval Value := do
  let _ ← onStore name.line (·.declarable scope name.text)
    fun _ s => s.bind scope name.text ⟨value, constant⟩
  pure value

def assign (scope : Nat) (name : Name) (value : Value) : Eval Value := do
  let _ ← onStore name.line (·.assignable scope name.text)
    fun owner s => s.bind owner name.text ⟨value, false⟩
  pure value

def newScope (parent : Option Nat) : Eval Nat := fun s =>
  let (scope, store) := s.store.newScope parent
  (.ok scope, { s with store })

def newObject (fields : Table Value) : Eval Value := fun s =>
  let (id, store) := s.store.newObject fields
  (.ok (.object id), { s with store })

/-- The field of an object, or null. -/
def getField (object : Nat) (key : Text) : Eval Value := fun s =>
  (.ok (((s.store.fields object).get? key).getD .null), s)

def setField (object : Nat) (key : Text) (value : Value) : Eval Value := fun s =>
  (.ok value, { s with store := s.store.setField object key value })

/-- Members belong to objects only. -/
def asObject (line : Nat) : Value → Eval Nat
  | .object id => pure id
  | other => fail line .invalidMember other.kind.name

/-- Keys are strings, or numbers by their texts. -/
def asKey (line : Nat) : Value → Eval Text
  | .text t => pure t
  | .number n => pure n.display
  | other => fail line .invalidKey other.kind.name

def asCondition (line : Nat) : Value → Eval Bool
  | .bool b => pure b
  | other => fail line .conditionKind other.kind.name

def applyOperator (op : Operator) (line : Nat) : Value → Value → Eval Value
  | .number x, .number y => pure (.number (op.apply x y))
  | left, right =>
    fail line .operandKind
      (left.kind.name ++ Text.utf8 " " ++ op.symbol ++ Text.utf8 " " ++ right.kind.name)

/-- Prints one line, if the printer still takes one. -/
def printLine (host : Host) (line : Nat) (text : Text) : Eval Value := fun s =>
  if host.printLimit.all (s.printed.size < ·) then
    (.ok .null, { s with printed := s.printed.push text })
  else fail line .printerClosed [] s

def perform (scope line : Nat) : HostAction → Eval Value
  | .done value => pure (value.getD .null)
  | .fail cause => fail line cause []
  | .raise error => Eval.throw error
  | .lookup name next => fun s => perform scope line (next (s.store.lookup scope name)) s
  | .declare name value constant next => fun s =>
    match s.store.declare scope name value constant with
    | .ok store => perform scope line (next (.ok value)) { s with store }
    | .error e => perform scope line (next (.error e)) s
  | .display value next => fun s => perform scope line (next (s.store.display value)) s

def callNative (host : Host) (scope line : Nat) (arguments : List Value) : Native → Eval Value
  | .print => fun s =>
    printLine host line (Text.join (Text.utf8 " ") (arguments.map s.store.display)) s
  | .time => fun s => (.ok (.number (host.clock s.readings)), { s with readings := s.readings + 1 })
  | .gate gate =>
    match gate.apply arguments with
    | .ok value => pure value
    | .error cause => fail line cause []
  | .host name =>
    match host.functions.get? name with
    | some action => perform scope line (action arguments)
    | none => pure .null

/-- Binds parameters in order. Those without an argument are null, and arguments
without a parameter are dropped. -/
def bindParameters (scope : Nat) : List Name → List Value → Eval Unit
  | [], _ => pure ()
  | name :: names, [] => do
    let _ ← declare scope name .null false
    bindParameters scope names []
  | name :: names, value :: values => do
    let _ ← declare scope name value false
    bindParameters scope names values

mutual

/-- The value of an expression in a scope. The value of an assignment is found
before its target is looked at. -/
def evalExpr (host : Host) : (fuel : Nat) → (scope : Nat) → Expr → Eval Value
  | 0, _, _ => Eval.exhausted
  | fuel + 1, scope, .assign target line value => do
    let value ← evalExpr host fuel scope value
    match target with
    | .name name => assign scope name value
    | .member object line key => do
      let object ← evalExpr host fuel scope object
      let id ← asObject line object
      setField id key.text value
    | .index object line key => do
      let object ← evalExpr host fuel scope object
      let id ← asObject line object
      let key ← evalExpr host fuel scope key
      let key ← asKey line key
      setField id key value
    | _ => fail line .invalidTarget []
  | fuel + 1, scope, .binary left op line right => do
    let left ← evalExpr host fuel scope left
    let right ← evalExpr host fuel scope right
    applyOperator op line left right
  | fuel + 1, scope, .call callee line arguments => do
    let callee ← evalExpr host fuel scope callee
    let arguments ← evalEach host fuel scope arguments
    match callee with
    | .native function => callNative host scope line arguments function
    | .func function closure => callFunction host fuel function closure arguments
    | other => fail line .notCallable other.kind.name
  | fuel + 1, scope, .member object line key => do
    let object ← evalExpr host fuel scope object
    let id ← asObject line object
    getField id key.text
  | fuel + 1, scope, .index object line key => do
    let object ← evalExpr host fuel scope object
    let id ← asObject line object
    let key ← evalExpr host fuel scope key
    let key ← asKey line key
    getField id key
  | _ + 1, scope, .name name => lookup scope name
  | _ + 1, _, .number value => pure (.number value)
  | _ + 1, _, .text value => pure (.text value)
  | _ + 1, _, .bool value => pure (.bool value)
  | fuel + 1, scope, .object properties => do
    let fields ← evalProperties host fuel scope properties .empty
    newObject fields
termination_by structural fuel => fuel

def evalEach (host : Host) : (fuel : Nat) → (scope : Nat) → List Expr → Eval (List Value)
  | 0, _, _ => Eval.exhausted
  | _ + 1, _, [] => pure []
  | fuel + 1, scope, e :: rest => do
    let value ← evalExpr host fuel scope e
    let values ← evalEach host fuel scope rest
    pure (value :: values)
termination_by structural fuel => fuel

/-- The fields that properties give, in order, after those there are already. -/
def evalProperties (host : Host) :
    (fuel : Nat) → (scope : Nat) → List Property → Table Value → Eval (Table Value)
  | 0, _, _, _ => Eval.exhausted
  | _ + 1, _, [], fields => pure fields
  | fuel + 1, scope, .shorthand key :: rest, fields => do
    let value ← lookup scope key
    evalProperties host fuel scope rest (fields.set key.text value)
  | fuel + 1, scope, .pair key value :: rest, fields => do
    let value ← evalExpr host fuel scope value
    evalProperties host fuel scope rest (fields.set key.text value)
termination_by structural fuel => fuel

/-- Calls a function: its parameters are bound in a new scope inside the one it
was made in, and its body runs there. -/
def callFunction (host : Host) :
    (fuel : Nat) → Function → (closure : Nat) → List Value → Eval Value
  | 0, _, _, _ => Eval.exhausted
  | fuel + 1, function, closure, arguments => do
    trace host (.called function.name.text arguments.length)
    let scope ← newScope (some closure)
    bindParameters scope function.parameters arguments
    execBlock host fuel scope .null function.body
termination_by structural fuel => fuel

def execStmt (host : Host) : (fuel : Nat) → (scope : Nat) → Stmt → Eval Value
  | 0, _, _ => Eval.exhausted
  | fuel + 1, scope, .expr e => evalExpr host fuel scope e
  | _ + 1, scope, .declare constant name _ none => declare scope name .null constant
  | fuel + 1, scope, .declare constant name _ (some e) => do
    let value ← evalExpr host fuel scope e
    declare scope name value constant
  | _ + 1, scope, .func name parameters body =>
    declare scope name (.func ⟨name, parameters, body⟩ scope) true
  | fuel + 1, scope, .branch line first others otherwise =>
    execClauses host fuel scope line (first :: others) otherwise
termination_by structural fuel => fuel

/-- Runs the block of the first clause whose condition holds, each block in a
scope of its own. -/
def execClauses (host : Host) :
    (fuel : Nat) → (scope line : Nat) → List Clause → List Stmt → Eval Value
  | 0, _, _, _, _ => Eval.exhausted
  | _ + 1, _, _, [], [] => pure .null
  | fuel + 1, scope, _, [], otherwise => do
    let inner ← newScope (some scope)
    execBlock host fuel inner .null otherwise
  | fuel + 1, scope, line, ⟨condition, body⟩ :: rest, otherwise => do
    let value ← evalExpr host fuel scope condition
    if ← asCondition line value then
      let inner ← newScope (some scope)
      execBlock host fuel inner .null body
    else execClauses host fuel scope line rest otherwise
termination_by structural fuel => fuel

/-- Runs statements in order. The value is that of the last one, or `last` if
there are none. -/
def execBlock (host : Host) : (fuel : Nat) → (scope : Nat) → Value → List Stmt → Eval Value
  | 0, _, _, _ => Eval.exhausted
  | _ + 1, _, last, [] => pure last
  | fuel + 1, scope, _, s :: rest => do
    let value ← execStmt host fuel scope s
    execBlock host fuel scope value rest
termination_by structural fuel => fuel

end

/-- A property has a meaning only inside its object. -/
def evalProperty (property : Property) : Eval Value :=
  fail property.key.line .unhandledNode (Text.utf8 "Property")

end Evaluator

def Program.evaluate (host : Host) (fuel scope : Nat) (p : Program) : Eval Value :=
  Evaluator.execBlock host fuel scope .null p

end Scripting
