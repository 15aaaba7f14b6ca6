import Scripting.Program
import Scripting.Token

/-!
Changing the lines that tokens and trees keep. Two trees that are the same once all
their lines are zero are the same up to lines.
-/

namespace Scripting

def Token.mapLine (f : Nat → Nat) (t : Token) : Token := { t with line := f t.line }

def Name.mapLine (f : Nat → Nat) (n : Name) : Name := { n with line := f n.line }

mutual

def Expr.mapLines (f : Nat → Nat) : Expr → Expr
  | .assign target line value => .assign (target.mapLines f) (f line) (value.mapLines f)
  | .binary left op line right => .binary (left.mapLines f) op (f line) (right.mapLines f)
  | .call callee line arguments =>
    .call (callee.mapLines f) (f line) (Expr.mapLinesEach f arguments)
  | .member object line key => .member (object.mapLines f) (f line) (key.mapLine f)
  | .index object line key => .index (object.mapLines f) (f line) (key.mapLines f)
  | .name name => .name (name.mapLine f)
  | .number value => .number value
  | .text value => .text value
  | .bool value => .bool value
  | .object properties => .object (Property.mapLinesEach f properties)

def Expr.mapLinesEach (f : Nat → Nat) : List Expr → List Expr
  | [] => []
  | e :: rest => e.mapLines f :: Expr.mapLinesEach f rest

def Property.mapLines (f : Nat → Nat) : Property → Property
  | .shorthand key => .shorthand (key.mapLine f)
  | .pair key value => .pair (key.mapLine f) (value.mapLines f)

def Property.mapLinesEach (f : Nat → Nat) : List Property → List Property
  | [] => []
  | p :: rest => p.mapLines f :: Property.mapLinesEach f rest

end

mutual

def Stmt.mapLines (f : Nat → Nat) : Stmt → Stmt
  | .expr expression => .expr (expression.mapLines f)
  | .declare constant name type value =>
    .declare constant (name.mapLine f) type (value.map (Expr.mapLines f))
  | .func name parameters body =>
    .func (name.mapLine f) (parameters.map (Name.mapLine f)) (Stmt.mapLinesEach f body)
  | .branch line first others otherwise =>
    .branch (f line) (first.mapLines f) (Clause.mapLinesEach f others)
      (Stmt.mapLinesEach f otherwise)

def Stmt.mapLinesEach (f : Nat → Nat) : List Stmt → List Stmt
  | [] => []
  | s :: rest => s.mapLines f :: Stmt.mapLinesEach f rest

def Clause.mapLines (f : Nat → Nat) : Clause → Clause
  | .mk condition body => .mk (condition.mapLines f) (Stmt.mapLinesEach f body)

def Clause.mapLinesEach (f : Nat → Nat) : List Clause → List Clause
  | [] => []
  | c :: rest => c.mapLines f :: Clause.mapLinesEach f rest

end

def Program.mapLines (f : Nat → Nat) (p : Program) : Program := Stmt.mapLinesEach f p

/-- Two programs that differ at most in the lines of their tokens. -/
def Program.SameUpToLines (p q : Program) : Prop :=
  p.mapLines (fun _ => 0) = q.mapLines (fun _ => 0)

variable (f g : Nat → Nat)

theorem Name.mapLine_mapLine (n : Name) : (n.mapLine f).mapLine g = n.mapLine fun l => g (f l) :=
  rfl

mutual

theorem Expr.mapLines_mapLines (e : Expr) :
    (e.mapLines f).mapLines g = e.mapLines fun l => g (f l) := by
  match e with
  | .assign target line value =>
      simp only [Expr.mapLines, target.mapLines_mapLines, value.mapLines_mapLines]
  | .binary left op line right =>
      simp only [Expr.mapLines, left.mapLines_mapLines, right.mapLines_mapLines]
  | .call callee line arguments =>
      simp only [Expr.mapLines, callee.mapLines_mapLines, Expr.mapLinesEach_mapLinesEach arguments]
  | .member object line key =>
      simp only [Expr.mapLines, object.mapLines_mapLines, key.mapLine_mapLine]
  | .index object line key =>
      simp only [Expr.mapLines, object.mapLines_mapLines, key.mapLines_mapLines]
  | .name name => rfl
  | .number value => rfl
  | .text value => rfl
  | .bool value => rfl
  | .object properties =>
      simp only [Expr.mapLines, Property.mapLinesEach_mapLinesEach properties]

theorem Expr.mapLinesEach_mapLinesEach (es : List Expr) :
    Expr.mapLinesEach g (Expr.mapLinesEach f es) = Expr.mapLinesEach (fun l => g (f l)) es := by
  match es with
  | [] => rfl
  | e :: rest =>
      simp only [Expr.mapLinesEach, e.mapLines_mapLines, Expr.mapLinesEach_mapLinesEach rest]

theorem Property.mapLines_mapLines (p : Property) :
    (p.mapLines f).mapLines g = p.mapLines fun l => g (f l) := by
  match p with
  | .shorthand key => rfl
  | .pair key value => simp only [Property.mapLines, key.mapLine_mapLine, value.mapLines_mapLines]

theorem Property.mapLinesEach_mapLinesEach (ps : List Property) :
    Property.mapLinesEach g (Property.mapLinesEach f ps) =
      Property.mapLinesEach (fun l => g (f l)) ps := by
  match ps with
  | [] => rfl
  | p :: rest =>
      simp only [Property.mapLinesEach, p.mapLines_mapLines,
        Property.mapLinesEach_mapLinesEach rest]

end

mutual

theorem Stmt.mapLines_mapLines (s : Stmt) :
    (s.mapLines f).mapLines g = s.mapLines fun l => g (f l) := by
  match s with
  | .expr expression => simp only [Stmt.mapLines, expression.mapLines_mapLines]
  | .declare constant name type none => rfl
  | .declare constant name type (some value) =>
      simp only [Stmt.mapLines, Option.map_some, value.mapLines_mapLines, name.mapLine_mapLine]
  | .func name parameters body =>
      simp only [Stmt.mapLines, List.map_map, Stmt.mapLinesEach_mapLinesEach body]
      rfl
  | .branch line first others otherwise =>
      simp only [Stmt.mapLines, first.mapLines_mapLines, Clause.mapLinesEach_mapLinesEach others,
        Stmt.mapLinesEach_mapLinesEach otherwise]

theorem Stmt.mapLinesEach_mapLinesEach (ss : List Stmt) :
    Stmt.mapLinesEach g (Stmt.mapLinesEach f ss) = Stmt.mapLinesEach (fun l => g (f l)) ss := by
  match ss with
  | [] => rfl
  | s :: rest =>
      simp only [Stmt.mapLinesEach, s.mapLines_mapLines, Stmt.mapLinesEach_mapLinesEach rest]

theorem Clause.mapLines_mapLines (c : Clause) :
    (c.mapLines f).mapLines g = c.mapLines fun l => g (f l) := by
  match c with
  | .mk condition body =>
      simp only [Clause.mapLines, condition.mapLines_mapLines, Stmt.mapLinesEach_mapLinesEach body]

theorem Clause.mapLinesEach_mapLinesEach (cs : List Clause) :
    Clause.mapLinesEach g (Clause.mapLinesEach f cs) =
      Clause.mapLinesEach (fun l => g (f l)) cs := by
  match cs with
  | [] => rfl
  | c :: rest =>
      simp only [Clause.mapLinesEach, c.mapLines_mapLines, Clause.mapLinesEach_mapLinesEach rest]

end

mutual

theorem Expr.mapLines_id (e : Expr) : e.mapLines (fun l => l) = e := by
  match e with
  | .assign target line value => simp only [Expr.mapLines, target.mapLines_id, value.mapLines_id]
  | .binary left op line right => simp only [Expr.mapLines, left.mapLines_id, right.mapLines_id]
  | .call callee line arguments =>
      simp only [Expr.mapLines, callee.mapLines_id, Expr.mapLinesEach_id arguments]
  | .member object line key => simp only [Expr.mapLines, object.mapLines_id, Name.mapLine]
  | .index object line key => simp only [Expr.mapLines, object.mapLines_id, key.mapLines_id]
  | .name name => rfl
  | .number value => rfl
  | .text value => rfl
  | .bool value => rfl
  | .object properties => simp only [Expr.mapLines, Property.mapLinesEach_id properties]

theorem Expr.mapLinesEach_id (es : List Expr) : Expr.mapLinesEach (fun l => l) es = es := by
  match es with
  | [] => rfl
  | e :: rest => simp only [Expr.mapLinesEach, e.mapLines_id, Expr.mapLinesEach_id rest]

theorem Property.mapLines_id (p : Property) : p.mapLines (fun l => l) = p := by
  match p with
  | .shorthand key => rfl
  | .pair key value => simp only [Property.mapLines, Name.mapLine, value.mapLines_id]

theorem Property.mapLinesEach_id (ps : List Property) :
    Property.mapLinesEach (fun l => l) ps = ps := by
  match ps with
  | [] => rfl
  | p :: rest => simp only [Property.mapLinesEach, p.mapLines_id, Property.mapLinesEach_id rest]

end

mutual

theorem Stmt.mapLines_id (s : Stmt) : s.mapLines (fun l => l) = s := by
  match s with
  | .expr expression => simp only [Stmt.mapLines, expression.mapLines_id]
  | .declare constant name type none => rfl
  | .declare constant name type (some value) =>
      simp only [Stmt.mapLines, Option.map_some, value.mapLines_id, Name.mapLine]
  | .func name parameters body =>
      simp only [Stmt.mapLines, Stmt.mapLinesEach_id body]
      exact congrArg (Stmt.func name · body) (List.map_id parameters)
  | .branch line first others otherwise =>
      simp only [Stmt.mapLines, first.mapLines_id, Clause.mapLinesEach_id others,
        Stmt.mapLinesEach_id otherwise]

theorem Stmt.mapLinesEach_id (ss : List Stmt) : Stmt.mapLinesEach (fun l => l) ss = ss := by
  match ss with
  | [] => rfl
  | s :: rest => simp only [Stmt.mapLinesEach, s.mapLines_id, Stmt.mapLinesEach_id rest]

theorem Clause.mapLines_id (c : Clause) : c.mapLines (fun l => l) = c := by
  match c with
  | .mk condition body =>
      simp only [Clause.mapLines, condition.mapLines_id, Stmt.mapLinesEach_id body]

theorem Clause.mapLinesEach_id (cs : List Clause) : Clause.mapLinesEach (fun l => l) cs = cs := by
  match cs with
  | [] => rfl
  | c :: rest => simp only [Clause.mapLinesEach, c.mapLines_id, Clause.mapLinesEach_id rest]

end

theorem Expr.mapLinesEach_name (names : List Name) :
    Expr.mapLinesEach f (names.map Expr.name) = (names.map (Name.mapLine f)).map Expr.name := by
  induction names with
  | nil => rfl
  | cons name rest ih => simp only [List.map_cons, Expr.mapLinesEach, Expr.mapLines, ih]

end Scripting
