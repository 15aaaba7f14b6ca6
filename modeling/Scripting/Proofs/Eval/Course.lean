import Scripting.Proofs.Eval.Fuel
import Scripting.Proofs.Store.Records

/-!
The course of an evaluation: the stores that it passes through, in order, the one at its
end among them, the calls that it makes, in the order in which they begin, the lines that
it asks to be printed, and the uses that it makes of objects, each with the store right after it.
A course is tied to its computation by its type, and put together the way the computation is.
-/

namespace Scripting

/-- A call of a function of the program, with all the arguments it is given. -/
structure Call where
  function : Function
  closure : Nat
  arguments : List Value

def Call.event (c : Call) : Event := .called c.function.name.text c.arguments.length

/-- A line that is to be printed by a call at a line of the program, with the state in which
it is. -/
structure Print where
  line : Nat
  text : Text
  state : State

namespace Eval

variable {α β : Type}

/-- What follows a value; after an error or a lack of fuel nothing does. -/
def following (f : α → State → List β) : Outcome α × State → List β
  | (.ok a, s) => f a s
  | (.error _, _) | (.exhausted, _) => []

/-- What a computation passes through, from each state on. -/
structure Course (x : Eval α) where
  stores : State → List Store
  calls : State → List Call := fun _ => []
  prints : State → List Print := fun _ => []
  uses : State → List (Access × Store) := fun _ => []

namespace Course

/-- One step, after which the store is looked at. -/
def step (x : Eval α) : Course x where
  stores s := [(x s).2.store]

/-- The step with which a call begins. -/
def call (host : Host) (c : Call) : Course (Eval.trace host c.event) where
  stores s := [(Eval.trace host c.event s).2.store]
  calls _ := [c]

/-- The same course with other uses of objects. -/
def withUses {x : Eval α} (c : Course x) (uses : State → List (Access × Store)) : Course x :=
  { c with uses }

/-- The course of another computation that goes the same way. -/
def along {x : Eval α} (c : Course x) (y : Eval β) : Course y :=
  ⟨c.stores, c.calls, c.prints, c.uses⟩

/-- One computation, and then the one that its value leads to. -/
def bind {x : Eval α} {f : α → Eval β} (c : Course x) (d : (a : α) → Course (f a)) :
    Course (x >>= f) where
  stores s := c.stores s ++ following (fun a => (d a).stores) (x s)
  calls s := c.calls s ++ following (fun a => (d a).calls) (x s)
  prints s := c.prints s ++ following (fun a => (d a).prints) (x s)
  uses s := c.uses s ++ following (fun a => (d a).uses) (x s)

end Course

end Eval

namespace Evaluator

open Eval (Course following)

/-- The keys of properties with their values, in order. -/
def evalEntries (host : Host) :
    (fuel : Nat) → (scope : Nat) → List Property → Eval (List (Text × Value))
  | 0, _, _ => Eval.exhausted
  | _ + 1, _, [] => pure []
  | fuel + 1, scope, .shorthand key :: rest => do
    let value ← lookup scope key
    let entries ← evalEntries host fuel scope rest
    pure ((key.text, value) :: entries)
  | fuel + 1, scope, .pair key value :: rest => do
    let value ← evalExpr host fuel scope value
    let entries ← evalEntries host fuel scope rest
    pure ((key.text, value) :: entries)
termination_by structural fuel => fuel

def readCourse (object : Nat) (key : Text) : Course (getField object key) :=
  (Course.step (getField object key)).withUses fun s =>
    following (fun value t => [(.read object key value, t.store)]) (getField object key s)

def setCourse (object : Nat) (key : Text) (value : Value) : Course (setField object key value) :=
  (Course.step (setField object key value)).withUses fun s =>
    [(.set object key value, (setField object key value s).2.store)]

def makeCourse (entries : List (Text × Value)) : Course (newObject (.ofEntries entries)) :=
  (Course.step (newObject (.ofEntries entries))).withUses fun s =>
    [(.made s.store.objects.size entries, (newObject (.ofEntries entries) s).2.store)]

def performCourse (scope line : Nat) : (action : HostAction) → Course (perform scope line action)
  | .done _ | .fail _ | .raise _ => .step _
  | .lookup name next =>
    { stores s := (performCourse scope line (next (s.store.lookup scope name))).stores s }
  | .declare name value constant next =>
    { stores s := match s.store.declare scope name value constant with
      | .ok store => store :: (performCourse scope line (next (.ok value))).stores { s with store }
      | .error e => (performCourse scope line (next (.error e))).stores s }
  | .display value next =>
    { stores s := (performCourse scope line (next (s.store.display value))).stores s }

def nativeCourse (host : Host) (scope line : Nat) (arguments : List Value) :
    (function : Native) → Course (callNative host scope line arguments function)
  | .print =>
    { stores s := [(callNative host scope line arguments .print s).2.store]
      prints s := [⟨line, Text.join (Text.utf8 " ") (arguments.map s.store.display), s⟩] }
  | .time | .gate _ => .step _
  | .host name =>
    { stores s := match host.functions.get? name with
      | some action => (performCourse scope line (action arguments)).stores s
      | none => [s.store] }

def parametersCourse (scope : Nat) :
    (names : List Name) → (values : List Value) → Course (bindParameters scope names values)
  | [], _ => .step _
  | name :: names, [] =>
    (Course.step (declare scope name .null false)).bind fun _ => parametersCourse scope names []
  | name :: names, value :: values =>
    (Course.step (declare scope name value false)).bind fun _ =>
      parametersCourse scope names values

mutual

def exprCourse (host : Host) :
    (fuel scope : Nat) → (e : Expr) → Course (evalExpr host fuel scope e)
  | 0, _, _ => .step _
  | fuel + 1, scope, .assign target _ value =>
    (exprCourse host fuel scope value).bind fun value => match target with
      | .name name => .step (assign scope name value)
      | .member object line key =>
        (exprCourse host fuel scope object).bind fun object =>
          (Course.step (asObject line object)).bind fun id => setCourse id key.text value
      | .index object line key =>
        (exprCourse host fuel scope object).bind fun object =>
          (Course.step (asObject line object)).bind fun id =>
            (exprCourse host fuel scope key).bind fun key =>
              (Course.step (asKey line key)).bind fun key => setCourse id key value
      | .assign .. | .binary .. | .call .. | .number _ | .text _ | .bool _ | .object _ => .step _
  | fuel + 1, scope, .binary left op line right =>
    (exprCourse host fuel scope left).bind fun left =>
      (exprCourse host fuel scope right).bind fun right => .step (applyOperator op line left right)
  | fuel + 1, scope, .call callee line arguments =>
    (exprCourse host fuel scope callee).bind fun callee =>
      (eachCourse host fuel scope arguments).bind fun arguments => match callee with
        | .native function => nativeCourse host scope line arguments function
        | .func function closure => callCourse host fuel function closure arguments
        | .null | .bool _ | .number _ | .text _ | .object _ => .step _
  | fuel + 1, scope, .member object line key =>
    (exprCourse host fuel scope object).bind fun object =>
      (Course.step (asObject line object)).bind fun id => readCourse id key.text
  | fuel + 1, scope, .index object line key =>
    (exprCourse host fuel scope object).bind fun object =>
      (Course.step (asObject line object)).bind fun id =>
        (exprCourse host fuel scope key).bind fun key =>
          (Course.step (asKey line key)).bind fun key => readCourse id key
  | _ + 1, scope, .name name => .step (lookup scope name)
  | _ + 1, _, .number _ | _ + 1, _, .text _ | _ + 1, _, .bool _ => .step _
  | fuel + 1, scope, .object properties =>
    -- the object is made when the values of all its properties are there
    let course := propertiesCourse host fuel scope properties .empty
    (course.bind fun fields => .step (newObject fields)).withUses
      ((course.along (evalEntries host fuel scope properties)).bind makeCourse).uses
termination_by structural fuel => fuel

def eachCourse (host : Host) :
    (fuel scope : Nat) → (es : List Expr) → Course (evalEach host fuel scope es)
  | 0, _, _ | _ + 1, _, [] => .step _
  | fuel + 1, scope, e :: rest =>
    (exprCourse host fuel scope e).bind fun _ =>
      (eachCourse host fuel scope rest).bind fun _ => .step _
termination_by structural fuel => fuel

def propertiesCourse (host : Host) :
    (fuel scope : Nat) → (ps : List Property) → (fields : Table Value) →
      Course (evalProperties host fuel scope ps fields)
  | 0, _, _, _ | _ + 1, _, [], _ => .step _
  | fuel + 1, scope, .shorthand key :: rest, fields =>
    (Course.step (lookup scope key)).bind fun value =>
      propertiesCourse host fuel scope rest (fields.set key.text value)
  | fuel + 1, scope, .pair key value :: rest, fields =>
    (exprCourse host fuel scope value).bind fun value =>
      propertiesCourse host fuel scope rest (fields.set key.text value)
termination_by structural fuel => fuel

def callCourse (host : Host) :
    (fuel : Nat) → (function : Function) → (closure : Nat) → (arguments : List Value) →
      Course (callFunction host fuel function closure arguments)
  | 0, _, _, _ => .step _
  | fuel + 1, function, closure, arguments =>
    (Course.call host ⟨function, closure, arguments⟩).bind fun _ =>
      (Course.step (newScope (some closure))).bind fun scope =>
        (parametersCourse scope function.parameters arguments).bind fun _ =>
          blockCourse host fuel scope .null function.body
termination_by structural fuel => fuel

def stmtCourse (host : Host) :
    (fuel scope : Nat) → (s : Stmt) → Course (execStmt host fuel scope s)
  | 0, _, _ => .step _
  | fuel + 1, scope, .expr e => exprCourse host fuel scope e
  | _ + 1, scope, .declare constant name _ none => .step (declare scope name .null constant)
  | fuel + 1, scope, .declare constant name _ (some e) =>
    (exprCourse host fuel scope e).bind fun value => .step (declare scope name value constant)
  | _ + 1, scope, .func name parameters body =>
    .step (declare scope name (.func ⟨name, parameters, body⟩ scope) true)
  | fuel + 1, scope, .branch line first others otherwise =>
    clausesCourse host fuel scope line (first :: others) otherwise
termination_by structural fuel => fuel

def clausesCourse (host : Host) :
    (fuel scope line : Nat) → (cs : List Clause) → (otherwise : List Stmt) →
      Course (execClauses host fuel scope line cs otherwise)
  | 0, _, _, _, _ | _ + 1, _, _, [], [] => .step _
  | fuel + 1, scope, _, [], s :: ss =>
    (Course.step (newScope (some scope))).bind fun inner =>
      blockCourse host fuel inner .null (s :: ss)
  | fuel + 1, scope, line, ⟨condition, body⟩ :: rest, otherwise =>
    (exprCourse host fuel scope condition).bind fun value =>
      (Course.step (asCondition line value)).bind fun holds => match holds with
        | true =>
          (Course.step (newScope (some scope))).bind fun inner =>
            blockCourse host fuel inner .null body
        | false => clausesCourse host fuel scope line rest otherwise
termination_by structural fuel => fuel

def blockCourse (host : Host) :
    (fuel scope : Nat) → (last : Value) → (ss : List Stmt) →
      Course (execBlock host fuel scope last ss)
  | 0, _, _, _ | _ + 1, _, _, [] => .step _
  | fuel + 1, scope, _, s :: rest =>
    (stmtCourse host fuel scope s).bind fun value => blockCourse host fuel scope value rest
termination_by structural fuel => fuel

end

end Evaluator

end Scripting
