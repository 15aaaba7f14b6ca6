import Scripting.Program
import Scripting.Token

/-!
Trees as a parser builds them, with nothing in their type that says what a parser makes sure of.
A node points to tokens and to other nodes, and what it points to may be missing; an operator is any
token, the property of an object any expression, and a property may stand where an expression does.
Each program has such a tree.
-/

namespace Scripting

mutual

inductive ExprNode where
  | nil
  | assign (assignee : ExprNode) (equal : Option Token) (value : ExprNode)
  | binary (left : ExprNode) (operator : Option Token) (right : ExprNode)
  | call (callee : ExprNode) (paren : Option Token) (arguments : List ExprNode)
  | member (object property : ExprNode) (computed : Bool) (dot : Option Token)
  | identifier (name : Option Token)
  | numeric (value : Number)
  | string (value : Text)
  | boolean (value : Bool)
  | object (properties : List PropertyNode)
  | property (node : PropertyNode)

/-- A key with its value, which is missing where the key stands alone. -/
inductive PropertyNode where
  | mk (key : Option Token) (value : ExprNode)

end

mutual

/-- A statement. The initializer of a variable and the last block of a conditional may be
missing. -/
inductive StmtNode where
  | expr (expression : ExprNode)
  | var (name : Option Token) (type : Option Text) (constant : Bool) (initializer : ExprNode)
  | func (declaration : FuncNode)
  | branch (keyword : Option Token) (condition : ExprNode) (body : List StmtNode)
      (elifs : List ElifNode) (otherwise : Option (List StmtNode))

inductive FuncNode where
  | mk (name : Option Token) (params : List (Option Token)) (body : List StmtNode)

inductive ElifNode where
  | mk (condition : ExprNode) (body : List StmtNode)

end

/-- The kinds of token that are all spelled alike. -/
def Token.Kind.isFixed : Token.Kind → Bool
  | endOfInput | operator | identifier | number | word => false
  | _ => true

/-- The token of a kind that is always spelled alike. -/
def Token.sign (kind : Token.Kind) (line : Nat) : Token := ⟨kind, kind.name, line⟩

def Operator.token (op : Operator) (line : Nat) : Token := ⟨.operator, op.symbol, line⟩

def Name.token (n : Name) : Token := ⟨.identifier, n.text, n.line⟩

mutual

def Expr.node : Expr → ExprNode
  | .assign target line value => .assign target.node (some (.sign .equal line)) value.node
  | .binary left op line right => .binary left.node (some (op.token line)) right.node
  | .call callee line arguments =>
    .call callee.node (some (.sign .leftParen line)) (Expr.nodes arguments)
  | .member object line key =>
    .member object.node (.identifier (some key.token)) false (some (.sign .dot line))
  | .index object line key => .member object.node key.node true (some (.sign .leftBracket line))
  | .name name => .identifier (some name.token)
  | .number value => .numeric value
  | .text value => .string value
  | .bool value => .boolean value
  | .object properties => .object (Property.nodes properties)

def Expr.nodes : List Expr → List ExprNode
  | [] => []
  | e :: rest => e.node :: Expr.nodes rest

def Property.node : Property → PropertyNode
  | .shorthand key => .mk (some key.token) .nil
  | .pair key value => .mk (some key.token) value.node

def Property.nodes : List Property → List PropertyNode
  | [] => []
  | p :: rest => p.node :: Property.nodes rest

end

/-- The node of an expression that may be missing. -/
def Expr.node? (e : Option Expr) : ExprNode := e.elim .nil Expr.node

/-- The tokens of parameters. -/
def Name.tokens (names : List Name) : List (Option Token) := names.map fun n => some n.token

mutual

/-- A block without statements is one that is missing. -/
def Stmt.node : Stmt → StmtNode
  | .expr expression => .expr expression.node
  | .declare constant name type value => .var (some name.token) type constant (Expr.node? value)
  | .func name parameters body =>
    .func (.mk (some name.token) (Name.tokens parameters) (Stmt.nodes body))
  | .branch line (.mk condition body) others otherwise =>
    .branch (some (.sign .ifKeyword line)) condition.node (Stmt.nodes body) (Clause.nodes others)
      (if otherwise.isEmpty then none else some (Stmt.nodes otherwise))

def Stmt.nodes : List Stmt → List StmtNode
  | [] => []
  | s :: rest => s.node :: Stmt.nodes rest

def Clause.node : Clause → ElifNode
  | .mk condition body => .mk condition.node (Stmt.nodes body)

def Clause.nodes : List Clause → List ElifNode
  | [] => []
  | c :: rest => c.node :: Clause.nodes rest

end

end Scripting
