import Scripting.Program.Outline
import Scripting.Proofs.Outline.Tree
import Scripting.Proofs.Program.Lines

/-!
The outline of a program as trees. Each construct has a word of its own, so that an
expression or a statement is read back from its tree, all but its lines.
-/

namespace Scripting

namespace Outline

/-- The words that tell what a node is. -/
inductive Tag where
  | operator (op : Operator)
  | set | call | member | index | bool | object
  | declare (constant : Bool)
  | func | branch | first | other | otherwise
  deriving DecidableEq

namespace Tag

def text : Tag → Text
  | operator op => op.symbol
  | set => Text.utf8 "set"
  | call => Text.utf8 "call"
  | member => Text.utf8 "."
  | index => Text.utf8 "[]"
  | bool => Text.utf8 "bool"
  | object => Text.utf8 "object"
  | declare constant => Stmt.keyword constant
  | func => Text.utf8 "func"
  | branch => Text.utf8 "if"
  | first => Text.utf8 "then"
  | other => Text.utf8 "elif"
  | otherwise => Text.utf8 "else"

def all : List Tag :=
  [operator .add, operator .sub, operator .mul, operator .div, operator .rem, set, call, member,
    index, bool, object, declare true, declare false, func, branch, first, other, otherwise]

theorem mem_all (tag : Tag) : tag ∈ all := by
  cases tag with
  | operator op => cases op <;> decide
  | declare constant => cases constant <;> decide
  | _ => decide

def ofText? (t : Text) : Option Tag := all.find? fun tag => tag.text = t

theorem ofText?_text (tag : Tag) : ofText? tag.text = some tag := by
  have h : ∀ tag ∈ all, ofText? tag.text = some tag := by decide +kernel
  exact h tag tag.mem_all

end Tag

def word (t : Text) : Tree := .leaf (.word t .none)

def tagged (tag : Tag) (children : List Tree) : Tree := .node (word tag.text :: children)

/-- Names with a comma after each but the last. -/
def parameters : List Name → List Tree
  | [] => []
  | [name] => [word name.text]
  | name :: rest => .leaf (.word name.text .comma) :: parameters rest

end Outline

open Outline (Tag Tree word tagged)

mutual

def Expr.tree : Expr → Tree
  | .assign target _ value => tagged .set [target.tree, value.tree]
  | .binary left op _ right => tagged (.operator op) [left.tree, right.tree]
  | .call callee _ arguments => tagged .call (callee.tree :: Expr.trees arguments)
  | .member object _ key => tagged .member [object.tree, word key.text]
  | .index object _ key => tagged .index [object.tree, key.tree]
  | .name name => word name.text
  | .number value => .leaf (.number value)
  | .text value => .leaf (.text value)
  | .bool value => tagged .bool [word (Text.utf8 (if value then "true" else "false"))]
  | .object properties => tagged .object (Property.trees properties)

def Expr.trees : List Expr → List Tree
  | [] => []
  | e :: rest => e.tree :: Expr.trees rest

def Property.tree : Property → Tree
  | .shorthand key => .node [word key.text]
  | .pair key value => .node [word key.text, value.tree]

def Property.trees : List Property → List Tree
  | [] => []
  | p :: rest => p.tree :: Property.trees rest

end

mutual

def Stmt.tree : Stmt → Tree
  | .expr expression => expression.tree
  | .declare constant name type value =>
    tagged (.declare constant) (.leaf (.word name.text (type.elim .none .type)) ::
      (value.map Expr.tree).toList)
  | .func name parameters body =>
    tagged .func (word name.text :: .node (Outline.parameters parameters) :: Stmt.trees body)
  | .branch _ first others otherwise =>
    tagged .branch (first.tree .first :: (Clause.trees others ++
      if otherwise.isEmpty then [] else [tagged .otherwise (Stmt.trees otherwise)]))

def Stmt.trees : List Stmt → List Tree
  | [] => []
  | s :: rest => s.tree :: Stmt.trees rest

def Clause.tree (tag : Tag) : Clause → Tree
  | .mk condition body => tagged tag (condition.tree :: Stmt.trees body)

def Clause.trees : List Clause → List Tree
  | [] => []
  | c :: rest => c.tree .other :: Clause.trees rest

end

/-! ## The outline is what is written for the trees -/

theorem Outline.print_word (t : Text) : (word t).print = t := List.append_nil t

theorem Outline.print_tagged (tag : Tag) (children : List Tree) :
    (tagged tag children).print =
      Text.utf8 "(" ++ (tag.text ++ (Tree.printEach children ++ Text.utf8 ")")) := by
  simp only [tagged, Tree.print, Outline.print_word]

mutual

theorem Expr.outline_eq (e : Expr) : e.outline = e.tree.print := by
  match e with
  | .assign target line value =>
      simp only [Expr.outline, Expr.tree, Outline.print_tagged, Tree.printEach, target.outline_eq,
        value.outline_eq, Text.concat_cons, Text.concat_nil, List.append_assoc, List.append_nil]
      rfl
  | .binary left op line right =>
      simp only [Expr.outline, Expr.tree, Outline.print_tagged, Tree.printEach, left.outline_eq,
        right.outline_eq, Text.concat_cons, Text.concat_nil, List.append_assoc, List.append_nil]
      rfl
  | .call callee line arguments =>
      simp only [Expr.outline, Expr.tree, Outline.print_tagged, Tree.printEach, callee.outline_eq,
        Expr.outlineEach_eq arguments, Text.concat_cons, Text.concat_nil, List.append_assoc,
        List.append_nil]
      rfl
  | .member object line key =>
      simp only [Expr.outline, Expr.tree, Outline.print_tagged, Outline.print_word, Tree.printEach,
        object.outline_eq, Text.concat_cons, Text.concat_nil, List.append_assoc, List.append_nil]
      rfl
  | .index object line key =>
      simp only [Expr.outline, Expr.tree, Outline.print_tagged, Tree.printEach, object.outline_eq,
        key.outline_eq, Text.concat_cons, Text.concat_nil, List.append_assoc, List.append_nil]
      rfl
  | .name name => exact (List.append_nil _).symm
  | .number value => rfl
  | .text value => rfl
  | .bool value => cases value <;> rfl
  | .object properties =>
      simp only [Expr.outline, Expr.tree, Outline.print_tagged, Property.outlineEach_eq properties,
        Text.concat_cons, Text.concat_nil, List.append_nil]
      rfl

theorem Expr.outlineEach_eq (es : List Expr) :
    Expr.outlineEach es = Tree.printEach (Expr.trees es) := by
  match es with
  | [] => rfl
  | e :: rest =>
      simp only [Expr.outlineEach, Expr.trees, Tree.printEach, e.outline_eq,
        Expr.outlineEach_eq rest, Text.concat_cons, Text.concat_nil, List.append_nil]

theorem Property.outline_eq (p : Property) : p.outline = p.tree.print := by
  match p with
  | .shorthand key =>
      simp only [Property.outline, Property.tree, Tree.print, Tree.printEach, Outline.print_word,
        List.append_assoc, List.nil_append]
  | .pair key value =>
      simp only [Property.outline, Property.tree, Tree.print, Tree.printEach, Outline.print_word,
        value.outline_eq, Text.concat_cons, Text.concat_nil, List.append_assoc, List.append_nil]

theorem Property.outlineEach_eq (ps : List Property) :
    Property.outlineEach ps = Tree.printEach (Property.trees ps) := by
  match ps with
  | [] => rfl
  | p :: rest =>
      simp only [Property.outlineEach, Property.trees, Tree.printEach, p.outline_eq,
        Property.outlineEach_eq rest, Text.concat_cons, Text.concat_nil, List.append_nil]

end

theorem Outline.printEach_append (ts us : List Tree) :
    Tree.printEach (ts ++ us) = Tree.printEach ts ++ Tree.printEach us := by
  induction ts with
  | nil => rfl
  | cons t ts ih => simp only [List.cons_append, Tree.printEach, ih, List.append_assoc]

theorem Outline.printEach_parameters (name : Name) (rest : List Name) :
    Tree.printEach (parameters (name :: rest)) =
      Text.utf8 " " ++ Text.join (Text.utf8 ", ") ((name :: rest).map Name.text) := by
  induction rest generalizing name with
  | nil =>
      simp only [parameters, Tree.printEach, print_word, List.map_cons, List.map_nil, Text.join,
        List.append_nil]
  | cons next rest ih =>
      simp only [parameters, Tree.printEach, ih, Tree.print, Leaf.print, Suffix.print,
        List.map_cons, Text.join, List.append_assoc]
      rfl

theorem Outline.print_parameters (names : List Name) :
    (Tree.node (parameters names)).print =
      Text.utf8 "(" ++ (Text.join (Text.utf8 ", ") (names.map Name.text) ++ Text.utf8 ")") := by
  match names with
  | [] => rfl
  | name :: rest =>
      have h := printEach_parameters name rest
      cases hp : parameters (name :: rest) with
      | nil => cases rest <;> cases hp
      | cons t ts =>
          rw [hp, Tree.printEach] at h
          rw [Tree.print, ← List.append_cancel_left h, List.append_assoc]

mutual

theorem Stmt.outline_eq (s : Stmt) : s.outline = s.tree.print := by
  match s with
  | .expr expression => exact expression.outline_eq
  | .declare constant name type value =>
      cases type <;> cases value <;>
        simp only [Stmt.outline, Stmt.tree, Outline.print_tagged, Tree.printEach, Tree.print,
          Outline.Leaf.print, Outline.Suffix.print, Option.elim, Option.map, Option.toList,
          Expr.outline_eq, Outline.Tag.text, Text.concat_cons, Text.concat_nil, List.append_assoc,
          List.append_nil, List.nil_append]
  | .func name parameters body =>
      simp only [Stmt.outline, Stmt.tree, Outline.print_tagged, Tree.printEach, Outline.print_word,
        Outline.print_parameters, Stmt.outlineEach_eq body, Text.concat_cons, Text.concat_nil,
        List.append_assoc, List.append_nil]
      rfl
  | .branch line first others otherwise =>
      have hb := Stmt.outlineEach_eq otherwise
      cases otherwise with
      | nil =>
          simp only [Stmt.outline, Stmt.tree, Outline.print_tagged, Tree.printEach,
            Clause.print_tree .first first, Clause.outlineEach_eq others, List.isEmpty_nil,
            if_true, Text.concat_cons, Text.concat_nil, List.append_assoc, List.append_nil]
          rfl
      | cons s ss =>
          simp only [Stmt.outline, Stmt.tree, Outline.print_tagged, Tree.printEach,
            Clause.print_tree .first first, Clause.outlineEach_eq others, hb, List.isEmpty_cons,
            Bool.false_eq_true, if_false, Outline.printEach_append, Text.concat_cons,
            Text.concat_nil, List.append_assoc, List.append_nil]
          rfl

theorem Stmt.outlineEach_eq (ss : List Stmt) :
    Stmt.outlineEach ss = Tree.printEach (Stmt.trees ss) := by
  match ss with
  | [] => rfl
  | s :: rest =>
      simp only [Stmt.outlineEach, Stmt.trees, Tree.printEach, s.outline_eq,
        Stmt.outlineEach_eq rest, Text.concat_cons, Text.concat_nil, List.append_nil]

theorem Clause.print_tree (tag : Tag) (c : Clause) :
    (c.tree tag).print =
      Text.utf8 "(" ++ (tag.text ++ (Text.utf8 " " ++ (c.outline ++ Text.utf8 ")"))) := by
  match c with
  | .mk condition body =>
      simp only [Clause.outline, Clause.tree, Outline.print_tagged, Tree.printEach,
        condition.outline_eq, Stmt.outlineEach_eq body, List.append_assoc]

theorem Clause.outlineEach_eq (cs : List Clause) :
    Clause.outlineEach cs = Tree.printEach (Clause.trees cs) := by
  match cs with
  | [] => rfl
  | c :: rest =>
      simp only [Clause.outlineEach, Clause.trees, Tree.printEach, Clause.print_tree .other c,
        Clause.outlineEach_eq rest, Text.concat_cons, Text.concat_nil, List.append_assoc,
        List.append_nil]
      rfl

end

theorem Program.outline_eq (p : Program) :
    p.outline = (Stmt.trees p).flatMap fun t => t.print ++ Text.utf8 "\n" := by
  induction p with
  | nil => rfl
  | cons s p ih =>
      rw [Program.outline] at ih
      rw [Program.outline, List.flatMap_cons, ih, Stmt.trees, List.flatMap_cons, s.outline_eq]

/-! ## Reading trees back -/

mutual

def Expr.ofTree? : Tree → Option Expr
  | .leaf (.word t .none) => some (.name ⟨t, 0⟩)
  | .leaf (.number x) => some (.number x)
  | .leaf (.text t) => some (.text t)
  | .node (.leaf (.word t .none) :: children) =>
    match Tag.ofText? t, children with
    | some .set, [target, value] => do
      return .assign (← Expr.ofTree? target) 0 (← Expr.ofTree? value)
    | some (.operator op), [left, right] => do
      return .binary (← Expr.ofTree? left) op 0 (← Expr.ofTree? right)
    | some .call, callee :: arguments => do
      return .call (← Expr.ofTree? callee) 0 (← Expr.ofTrees? arguments)
    | some .member, [object, .leaf (.word key .none)] => do
      return .member (← Expr.ofTree? object) 0 ⟨key, 0⟩
    | some .index, [object, key] => do
      return .index (← Expr.ofTree? object) 0 (← Expr.ofTree? key)
    | some .bool, [.leaf (.word value .none)] => some (.bool (value = Text.utf8 "true"))
    | some .object, properties => do return .object (← Property.ofTrees? properties)
    | _, _ => none
  | _ => none

def Expr.ofTrees? : List Tree → Option (List Expr)
  | [] => some []
  | t :: rest => do return (← Expr.ofTree? t) :: (← Expr.ofTrees? rest)

def Property.ofTree? : Tree → Option Property
  | .node [.leaf (.word key .none)] => some (.shorthand ⟨key, 0⟩)
  | .node [.leaf (.word key .none), value] => do return .pair ⟨key, 0⟩ (← Expr.ofTree? value)
  | _ => none

def Property.ofTrees? : List Tree → Option (List Property)
  | [] => some []
  | t :: rest => do return (← Property.ofTree? t) :: (← Property.ofTrees? rest)

end

mutual

theorem Expr.ofTree?_tree (e : Expr) : Expr.ofTree? e.tree = some (e.mapLines fun _ => 0) := by
  unfold Expr.ofTree?
  match e with
  | .assign target line value =>
      simp only [Expr.tree, tagged, word, Tag.ofText?_text, target.ofTree?_tree,
        value.ofTree?_tree]
      rfl
  | .binary left op line right =>
      simp only [Expr.tree, tagged, word, Tag.ofText?_text, left.ofTree?_tree, right.ofTree?_tree]
      rfl
  | .call callee line arguments =>
      simp only [Expr.tree, tagged, word, Tag.ofText?_text, callee.ofTree?_tree,
        Expr.ofTrees?_trees arguments]
      rfl
  | .member object line key =>
      simp only [Expr.tree, tagged, word, Tag.ofText?_text, object.ofTree?_tree]
      rfl
  | .index object line key =>
      simp only [Expr.tree, tagged, word, Tag.ofText?_text, object.ofTree?_tree,
        key.ofTree?_tree]
      rfl
  | .name name => rfl
  | .number value => rfl
  | .text value => rfl
  | .bool value => cases value <;> rfl
  | .object properties =>
      simp only [Expr.tree, tagged, word, Tag.ofText?_text,
        Property.ofTrees?_trees properties]
      rfl

theorem Expr.ofTrees?_trees (es : List Expr) :
    Expr.ofTrees? (Expr.trees es) = some (Expr.mapLinesEach (fun _ => 0) es) := by
  match es with
  | [] => rfl
  | e :: rest =>
      simp only [Expr.trees, Expr.ofTrees?, e.ofTree?_tree, Expr.ofTrees?_trees rest]
      rfl

theorem Property.ofTree?_tree (p : Property) :
    Property.ofTree? p.tree = some (p.mapLines fun _ => 0) := by
  match p with
  | .shorthand key => rfl
  | .pair key value =>
      simp only [Property.tree, word, Property.ofTree?, value.ofTree?_tree]
      rfl

theorem Property.ofTrees?_trees (ps : List Property) :
    Property.ofTrees? (Property.trees ps) = some (Property.mapLinesEach (fun _ => 0) ps) := by
  match ps with
  | [] => rfl
  | p :: rest =>
      simp only [Property.trees, Property.ofTrees?, p.ofTree?_tree, Property.ofTrees?_trees rest]
      rfl

end

/-- The name of a parameter, without the comma. -/
def Outline.parameter? : Tree → Option Name
  | .leaf (.word t _) => some ⟨t, 0⟩
  | _ => none

theorem Outline.parameters_read (names : List Name) :
    (parameters names).filterMap parameter? = names.map (Name.mapLine fun _ => 0) := by
  match names with
  | [] => rfl
  | [name] => rfl
  | name :: next :: rest =>
      have h := parameters_read (next :: rest)
      exact congrArg (name.mapLine (fun _ => 0) :: ·) h

def Outline.Suffix.type? : Suffix → Option Text
  | .type t => some t
  | .none | .comma => Option.none

mutual

/-- What is not read as an expression is read as another statement. -/
def Stmt.ofTree? (t : Tree) : Option Stmt :=
  match Expr.ofTree? t with
  | some e => some (.expr e)
  | none =>
    match t with
    | .node (.leaf (.word t .none) :: children) =>
      match Tag.ofText? t, children with
      | some (.declare constant), [.leaf (.word name suffix)] =>
        some (.declare constant ⟨name, 0⟩ suffix.type? none)
      | some (.declare constant), [.leaf (.word name suffix), value] => do
        return .declare constant ⟨name, 0⟩ suffix.type? (some (← Expr.ofTree? value))
      | some .func, .leaf (.word name .none) :: .node parameters :: body => do
        return .func ⟨name, 0⟩ (parameters.filterMap Outline.parameter?) (← Stmt.ofTrees? body)
      | some .branch, first :: others => do
        let (clauses, otherwise) ← Clause.ofTrees? others
        return .branch 0 (← Clause.ofTree? first) clauses otherwise
      | _, _ => none
    | _ => none

def Stmt.ofTrees? : List Tree → Option (List Stmt)
  | [] => some []
  | t :: rest => do return (← Stmt.ofTree? t) :: (← Stmt.ofTrees? rest)

def Clause.ofTree? : Tree → Option Clause
  | .node (_ :: condition :: body) => do
    return ⟨← Expr.ofTree? condition, ← Stmt.ofTrees? body⟩
  | _ => none

/-- The clauses after the first one, and the statements otherwise. -/
def Clause.ofTrees? : List Tree → Option (List Clause × List Stmt)
  | [] => some ([], [])
  | .node (.leaf (.word t .none) :: children) :: rest =>
    match Tag.ofText? t, children, rest with
    | some .otherwise, body, [] => do return ([], ← Stmt.ofTrees? body)
    | some .other, condition :: body, rest => do
      let (clauses, otherwise) ← Clause.ofTrees? rest
      return (⟨← Expr.ofTree? condition, ← Stmt.ofTrees? body⟩ :: clauses, otherwise)
    | _, _, _ => none
  | _ => none

end

/-- The words of statements tell no expression. -/
theorem Expr.ofTree?_eq_none {tag : Tag} (children : List Tree)
    (h : (∃ constant, tag = .declare constant) ∨ tag = .func ∨ tag = .branch) :
    Expr.ofTree? (tagged tag children) = none := by
  simp only [tagged, word]
  unfold Expr.ofTree?
  simp only [Tag.ofText?_text]
  obtain ⟨constant, rfl⟩ | rfl | rfl := h <;> rfl

mutual

theorem Stmt.ofTree?_tree (s : Stmt) : Stmt.ofTree? s.tree = some (s.mapLines fun _ => 0) := by
  unfold Stmt.ofTree?
  match s with
  | .expr expression =>
      simp only [Stmt.tree, expression.ofTree?_tree]
      rfl
  | .declare constant name type value =>
      simp only [Stmt.tree, Expr.ofTree?_eq_none _ (.inl ⟨constant, rfl⟩)]
      simp only [tagged, word, Tag.ofText?_text]
      cases type <;> cases value <;>
        simp only [Option.map, Option.toList, Expr.ofTree?_tree] <;> rfl
  | .func name parameters body =>
      simp only [Stmt.tree, Expr.ofTree?_eq_none _ (.inr (.inl rfl))]
      simp only [tagged, word, Tag.ofText?_text, Outline.parameters_read, Stmt.ofTrees?_trees body]
      rfl
  | .branch line first others otherwise =>
      simp only [Stmt.tree, Expr.ofTree?_eq_none _ (.inr (.inr rfl))]
      simp only [tagged, word, Tag.ofText?_text, first.ofTree?_tree]
      have ho := Stmt.ofTrees?_trees otherwise
      have hs := Clause.ofTrees?_trees others ho
      simp only [tagged, word] at hs
      simp only [hs]
      rfl

theorem Stmt.ofTrees?_trees (ss : List Stmt) :
    Stmt.ofTrees? (Stmt.trees ss) = some (Stmt.mapLinesEach (fun _ => 0) ss) := by
  match ss with
  | [] => rfl
  | s :: rest =>
      simp only [Stmt.trees, Stmt.ofTrees?, s.ofTree?_tree, Stmt.ofTrees?_trees rest]
      rfl

theorem Clause.ofTree?_tree (c : Clause) (tag : Tag) :
    Clause.ofTree? (c.tree tag) = some (c.mapLines fun _ => 0) := by
  match c with
  | .mk condition body =>
      simp only [Clause.tree, tagged, word, Clause.ofTree?, condition.ofTree?_tree,
        Stmt.ofTrees?_trees body]
      rfl

theorem Clause.ofTrees?_trees (cs : List Clause) {otherwise : List Stmt}
    (h : Stmt.ofTrees? (Stmt.trees otherwise) = some (Stmt.mapLinesEach (fun _ => 0) otherwise)) :
    Clause.ofTrees? (Clause.trees cs ++
      if otherwise.isEmpty then [] else [tagged .otherwise (Stmt.trees otherwise)]) =
        some (Clause.mapLinesEach (fun _ => 0) cs, Stmt.mapLinesEach (fun _ => 0) otherwise) := by
  match cs with
  | [] =>
      cases otherwise with
      | nil => rfl
      | cons s ss =>
          simp only [Clause.trees, List.nil_append, List.isEmpty_cons, Bool.false_eq_true, if_false,
            tagged, word]
          unfold Clause.ofTrees?
          simp only [Tag.ofText?_text, h]
          rfl
  | .mk condition body :: rest =>
      simp only [Clause.trees, Clause.tree, List.cons_append, tagged, word]
      unfold Clause.ofTrees?
      have hs := Clause.ofTrees?_trees rest h
      simp only [tagged, word] at hs
      simp only [Tag.ofText?_text, condition.ofTree?_tree, Stmt.ofTrees?_trees body, hs]
      rfl

end

end Scripting
