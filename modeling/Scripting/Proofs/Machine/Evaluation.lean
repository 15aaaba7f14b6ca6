import Scripting.Eval
import Scripting.Proofs.Machine.Memory

/-!
Running trees on the machine. Each kind of node has its part, and asks for what it needs from the
node when it needs it: a token that is missing, a property that is no name, a value that is not
there are reached for all the same, and the evaluation has then gone astray. An operator that is
none of the five is an error, and so is a property that stands where an expression does.
-/

namespace Scripting

namespace Machine

open Walk (look demand)

/-- Ends the evaluation with an error. -/
def raise {α : Type} (e : RuntimeError) : Walk Machine α := fun m =>
  .aborted { m with raised := some e }

/-- Fails at a token. Without one the error has no line. -/
def fail {α : Type} (cause : RuntimeError.Cause) (token : Option Token) (detail : Text) :
    Walk Machine α :=
  raise ⟨(token.map fun t => t.line).getD 0, cause, detail⟩

/-- What a part of the evaluation gives, which has to be there. -/
def given {α : Type} (x : Walk Machine (Option α)) : Walk Machine α := do
  demand (← x)

def lexeme (token : Option Token) : Walk Machine Text := do
  return (← demand token).lexeme

/-- Carries out an operation of the memory. A rule of the scopes that is broken is an error at a
token. -/
def operate {α : Type} (token : Option Token) (f : Machine → Except BindingError (α × Machine)) :
    Walk Machine α := fun m =>
  match f m with
  | .ok (a, m) => .done a m
  | .error e => fail (.binding e) token [] m

/-- The value of the name that a token spells. -/
def visitName (frame : Nat) (name : Option Token) : Walk Machine (Option Datum) := do
  let text ← lexeme name
  operate name fun m => (m.lookup frame text).map (·, m)

/-- Declares the name that a token spells and gives its value. -/
def declareName (frame : Nat) (name : Option Token) (value : Option Datum) (constant : Bool) :
    Walk Machine (Option Datum) := do
  let text ← lexeme name
  operate name fun m => (m.declare frame text value constant).map (value, ·)

/-- Assigns to the name that a token spells and gives the value. -/
def assignName (frame : Nat) (name : Option Token) (value : Datum) :
    Walk Machine (Option Datum) := do
  let text ← lexeme name
  operate name fun m => (m.assign frame text (some value)).map (some value, ·)

def openFrame (enclosing : Nat) : Walk Machine Nat := fun m =>
  let (frame, m) := m.newFrame (some enclosing)
  .done frame m

/-- Puts a new object into the memory. -/
def keepRecord (record : Record) : Walk Machine (Option Datum) := fun m =>
  let (id, m) := m.newRecord record
  .done (some (.object id)) m

/-- Sets a field of an object and gives the value. -/
def setMember (object : Nat) (key : Text) (value : Datum) : Walk Machine (Option Datum) := fun m =>
  .done (some value) (m.setField object key (some value))

/-- The field of an object, or null. -/
def getMember (object : Nat) (key : Text) : Walk Machine (Option Datum) :=
  look fun m => ((m.record object).fields.get? key).getD (some .null)

/-- The value of two numbers with an operator between them. Other operands are an error, and so is
another operator. -/
def applyToken (operator : Option Token) : Datum → Datum → Walk Machine (Option Datum)
  | .number x, .number y => do
    let symbol ← lexeme operator
    match Operator.applySymbol symbol x y with
    | .ok value => return some (.number value)
    | .error cause => fail cause operator symbol
  | left, right => do
    let symbol ← lexeme operator
    fail .operandKind operator
      (left.kind.name ++ Text.utf8 " " ++ symbol ++ Text.utf8 " " ++ right.kind.name)

/-- The output of a gate, which reaches for as many inputs as it has. -/
def gateOutput? (gate : Gate) (inputs : List Bool) : Option Bool :=
  let two (f : Bool → Bool → Bool) : Option Bool := do return f (← inputs[0]?) (← inputs[1]?)
  match gate with
  | .not => inputs[0]?.map (!·)
  | .or => two (· || ·)
  | .nor => two fun a b => !(a || b)
  | .and => two (· && ·)
  | .nand => two fun a b => !(a && b)
  | .xor => two (· != ·)
  | .xnor => two (· == ·)

def gateInputs (gate : Gate) : List Datum → Except RuntimeError.Cause (List Bool)
  | [] => .ok []
  | .bool b :: rest => (gateInputs gate rest).map (b :: ·)
  | other :: _ => .error (.gateInput gate.name other.kind)

/-- Prints one line, if the printer still takes one. -/
def printLine (host : Host) (paren : Option Token) (text : Text) : Walk Machine (Option Datum) :=
  fun m =>
    if host.printLimit.all (m.printed.size < ·) then
      .done (some .null) { m with printed := m.printed.push text }
    else fail .printerClosed paren [] m

/-- Calls a function that is not written in the language, which may give nothing. -/
def callNative (host : Host) (paren : Option Token) (arguments : List Datum) :
    Native → Walk Machine (Option Datum)
  | .print => do
    let texts ← given (look fun m => arguments.mapM m.display?)
    printLine host paren (Text.join (Text.utf8 " ") texts)
  | .time => fun m =>
    .done (some (.number (host.clock m.readings))) { m with readings := m.readings + 1 }
  | .gate gate =>
    if arguments.length = gate.arity then
      match gateInputs gate arguments with
      | .ok inputs => do return some (.bool (← demand (gateOutput? gate inputs)))
      | .error cause => fail cause paren []
    else fail (.arity gate.name gate.arity arguments.length) paren []
  | .host _ => return none

/-- Binds parameters in order. Those without an argument are null. -/
def bindParameters (frame : Nat) : List (Option Token) → List Datum → Walk Machine Unit
  | [], _ => return ()
  | name :: names, [] => do
    let _ ← declareName frame name (some .null) false
    bindParameters frame names []
  | name :: names, value :: values => do
    let _ ← declareName frame name (some value) false
    bindParameters frame names values

section
variable (evaluate : ExprNode → Walk Machine Datum)

/-- The object of a member. -/
def memberObject (object : ExprNode) (dot : Option Token) : Walk Machine Nat := do
  match ← evaluate object with
  | .object id => return id
  | other => fail .invalidMember dot other.kind.name

/-- The key of a member. Unless it is computed, the property has to be a name. -/
def memberKey (property : ExprNode) (computed : Bool) (dot : Option Token) : Walk Machine Text :=
  if computed then do
    match ← evaluate property with
    | .text key => return key
    | .number key => return key.display
    | other => fail .invalidKey dot other.kind.name
  else
    match property with
    | .identifier name => lexeme name
    | _ => demand none

/-- Whether a condition holds, which has to be a boolean. -/
def truthy (condition : ExprNode) (keyword : Option Token) : Walk Machine Bool := do
  match ← evaluate condition with
  | .bool b => return b
  | other => fail .conditionKind keyword other.kind.name

/-- Assigns a value to what an expression stands for, and gives the value. -/
def assignTo (frame : Nat) (equal : Option Token) (value : Datum) :
    ExprNode → Walk Machine (Option Datum)
  | .identifier name => assignName frame name value
  | .member object property computed dot => do
    let id ← memberObject evaluate object dot
    let key ← memberKey evaluate property computed dot
    setMember id key value
  | _ => fail .invalidTarget equal []

/-- The value of a property. A key that stands alone is a name. -/
def propertyValue (frame : Nat) (key : Option Token) : ExprNode → Walk Machine Datum
  | .nil => given (visitName frame key)
  | value => evaluate value

/-- The first value of a variable, which is null if none is given. -/
def initialValue : ExprNode → Walk Machine Datum
  | .nil => return .null
  | value => evaluate value

end

/-- Reads the name of a function whose call is logged. -/
def readName (host : Host) (name : Option Token) : Walk Machine Unit :=
  if host.tracing then do
    let _ ← lexeme name
    return ()
  else return ()

mutual

/-- What a node gives, which may be nothing. -/
def visitExpr (host : Host) :
    (fuel : Nat) → (frame : Nat) → ExprNode → Walk Machine (Option Datum)
  | 0, _, _ => Walk.exhausted
  | _ + 1, _, .nil => demand none
  | fuel + 1, frame, .assign assignee equal value => do
    let value ← given (visitExpr host fuel frame value)
    assignTo (fun e => given (visitExpr host fuel frame e)) frame equal value assignee
  | fuel + 1, frame, .binary left operator right => do
    let left ← given (visitExpr host fuel frame left)
    let right ← given (visitExpr host fuel frame right)
    applyToken operator left right
  | fuel + 1, frame, .call callee paren arguments => do
    let callee ← given (visitExpr host fuel frame callee)
    let arguments ← visitEach host fuel frame arguments
    match callee with
    | .native function => return some ((← callNative host paren arguments function).getD .null)
    | .func declaration closure =>
      return some (← callFunction host fuel declaration closure arguments)
    | other => fail .notCallable paren other.kind.name
  | fuel + 1, frame, .member object property computed dot => do
    let id ← memberObject (fun e => given (visitExpr host fuel frame e)) object dot
    let key ← memberKey (fun e => given (visitExpr host fuel frame e)) property computed dot
    getMember id key
  | _ + 1, frame, .identifier name => visitName frame name
  | _ + 1, _, .numeric value => return some (.number value)
  | _ + 1, _, .string value => return some (.text value)
  | _ + 1, _, .boolean value => return some (.bool value)
  | fuel + 1, frame, .object properties => do
    let record ← visitProperties host fuel frame properties {}
    keepRecord record
  | _ + 1, _, .property (.mk key _) => fail .unhandledNode key (Text.utf8 "Property")
termination_by structural fuel => fuel

def visitEach (host : Host) :
    (fuel : Nat) → (frame : Nat) → List ExprNode → Walk Machine (List Datum)
  | 0, _, _ => Walk.exhausted
  | _ + 1, _, [] => return []
  | fuel + 1, frame, e :: rest => do
    let value ← given (visitExpr host fuel frame e)
    let values ← visitEach host fuel frame rest
    return value :: values
termination_by structural fuel => fuel

/-- Sets the fields of an object in order. -/
def visitProperties (host : Host) :
    (fuel : Nat) → (frame : Nat) → List PropertyNode → Record → Walk Machine Record
  | 0, _, _, _ => Walk.exhausted
  | _ + 1, _, [], record => return record
  | fuel + 1, frame, .mk key value :: rest, record => do
    let value ← propertyValue (fun e => given (visitExpr host fuel frame e)) frame key value
    let text ← lexeme key
    visitProperties host fuel frame rest (record.set text (some value))
termination_by structural fuel => fuel

/-- Calls a function in a new scope inside the one it was made in. -/
def callFunction (host : Host) :
    (fuel : Nat) → FuncNode → (closure : Nat) → List Datum → Walk Machine Datum
  | 0, _, _, _ => Walk.exhausted
  | fuel + 1, .mk name parameters body, closure, arguments => do
    readName host name
    let frame ← openFrame closure
    bindParameters frame parameters arguments
    visitBlock host fuel frame .null body
termination_by structural fuel => fuel

def visitStmt (host : Host) :
    (fuel : Nat) → (frame : Nat) → StmtNode → Walk Machine (Option Datum)
  | 0, _, _ => Walk.exhausted
  | fuel + 1, frame, .expr expression => do
    return some (← given (visitExpr host fuel frame expression))
  | fuel + 1, frame, .var name _ constant initializer => do
    let value ← initialValue (fun e => given (visitExpr host fuel frame e)) initializer
    declareName frame name (some value) constant
  | _ + 1, frame, .func (.mk name parameters body) =>
    declareName frame name (some (.func (.mk name parameters body) frame)) true
  | fuel + 1, frame, .branch keyword condition body elifs otherwise => do
    return some (← visitClauses host fuel frame keyword (.mk condition body :: elifs) otherwise)
termination_by structural fuel => fuel

/-- Runs the block of the first clause whose condition holds, or else the last block. -/
def visitClauses (host : Host) : (fuel : Nat) → (frame : Nat) → (keyword : Option Token) →
    List ElifNode → Option (List StmtNode) → Walk Machine Datum
  | 0, _, _, _, _ => Walk.exhausted
  | _ + 1, _, _, [], none => return .null
  | fuel + 1, frame, _, [], some otherwise => do
    let inner ← openFrame frame
    visitBlock host fuel inner .null otherwise
  | fuel + 1, frame, keyword, .mk condition body :: rest, otherwise => do
    if ← truthy (fun e => given (visitExpr host fuel frame e)) condition keyword then
      let inner ← openFrame frame
      visitBlock host fuel inner .null body
    else visitClauses host fuel frame keyword rest otherwise
termination_by structural fuel => fuel

/-- Runs statements in order and gives the value of the last one. -/
def visitBlock (host : Host) :
    (fuel : Nat) → (frame : Nat) → Datum → List StmtNode → Walk Machine Datum
  | 0, _, _, _ => Walk.exhausted
  | _ + 1, _, last, [] => return last
  | fuel + 1, frame, _, s :: rest => do
    let value ← given (visitStmt host fuel frame s)
    visitBlock host fuel frame value rest
termination_by structural fuel => fuel

end

end Machine

end Scripting
