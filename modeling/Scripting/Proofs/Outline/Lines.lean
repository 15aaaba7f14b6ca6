import Scripting.Program.Outline
import Scripting.Proofs.Program.Lines

/-!
An outline does not show lines: programs that are the same up to lines have the same outline.
-/

namespace Scripting

variable (f : Nat → Nat)

mutual

theorem Expr.outline_mapLines (e : Expr) : (e.mapLines f).outline = e.outline := by
  match e with
  | .assign target line value | .binary target _ line value | .index target line value =>
      simp only [Expr.mapLines, Expr.outline, target.outline_mapLines, value.outline_mapLines]
  | .call callee line arguments =>
      simp only [Expr.mapLines, Expr.outline, callee.outline_mapLines,
        Expr.outlineEach_mapLines arguments]
  | .member object line key =>
      simp only [Expr.mapLines, Expr.outline, object.outline_mapLines, Name.mapLine]
  | .name _ | .number _ | .text _ | .bool _ => rfl
  | .object properties =>
      simp only [Expr.mapLines, Expr.outline, Property.outlineEach_mapLines properties]

theorem Expr.outlineEach_mapLines (es : List Expr) :
    Expr.outlineEach (Expr.mapLinesEach f es) = Expr.outlineEach es := by
  match es with
  | [] => rfl
  | e :: rest =>
      simp only [Expr.mapLinesEach, Expr.outlineEach, e.outline_mapLines,
        Expr.outlineEach_mapLines rest]

theorem Property.outline_mapLines (p : Property) : (p.mapLines f).outline = p.outline := by
  match p with
  | .shorthand key => rfl
  | .pair key value =>
      simp only [Property.mapLines, Property.outline, value.outline_mapLines, Name.mapLine]

theorem Property.outlineEach_mapLines (ps : List Property) :
    Property.outlineEach (Property.mapLinesEach f ps) = Property.outlineEach ps := by
  match ps with
  | [] => rfl
  | p :: rest =>
      simp only [Property.mapLinesEach, Property.outlineEach, p.outline_mapLines,
        Property.outlineEach_mapLines rest]

end

theorem Stmt.isEmpty_mapLinesEach (ss : List Stmt) :
    (Stmt.mapLinesEach f ss).isEmpty = ss.isEmpty := by
  cases ss <;> rfl

mutual

theorem Stmt.outline_mapLines (s : Stmt) : (s.mapLines f).outline = s.outline := by
  match s with
  | .expr expression => simp only [Stmt.mapLines, Stmt.outline, expression.outline_mapLines]
  | .declare constant name type none => rfl
  | .declare constant name type (some value) =>
      simp only [Stmt.mapLines, Stmt.outline, Option.map_some, value.outline_mapLines,
        Name.mapLine]
  | .func name parameters body =>
      have hp : Name.text ∘ Name.mapLine f = Name.text := rfl
      simp only [Stmt.mapLines, Stmt.outline, List.map_map, hp, Name.mapLine,
        Stmt.outlineEach_mapLines body]
  | .branch line first others otherwise =>
      simp only [Stmt.mapLines, Stmt.outline, first.outline_mapLines,
        Clause.outlineEach_mapLines others, Stmt.isEmpty_mapLinesEach,
        Stmt.outlineEach_mapLines otherwise]

theorem Stmt.outlineEach_mapLines (ss : List Stmt) :
    Stmt.outlineEach (Stmt.mapLinesEach f ss) = Stmt.outlineEach ss := by
  match ss with
  | [] => rfl
  | s :: rest =>
      simp only [Stmt.mapLinesEach, Stmt.outlineEach, s.outline_mapLines,
        Stmt.outlineEach_mapLines rest]

theorem Clause.outline_mapLines (c : Clause) : (c.mapLines f).outline = c.outline := by
  match c with
  | .mk condition body =>
      simp only [Clause.mapLines, Clause.outline, condition.outline_mapLines,
        Stmt.outlineEach_mapLines body]

theorem Clause.outlineEach_mapLines (cs : List Clause) :
    Clause.outlineEach (Clause.mapLinesEach f cs) = Clause.outlineEach cs := by
  match cs with
  | [] => rfl
  | c :: rest =>
      simp only [Clause.mapLinesEach, Clause.outlineEach, c.outline_mapLines,
        Clause.outlineEach_mapLines rest]

end

theorem Program.outline_mapLines (p : Program) : (p.mapLines f).outline = p.outline := by
  induction p with
  | nil => rfl
  | cons s rest ih =>
      simp only [Program.mapLines, Program.outline, Stmt.mapLinesEach, List.flatMap_cons,
        s.outline_mapLines] at ih ⊢
      rw [ih]

theorem Program.SameUpToLines.outline_eq {p q : Program} (h : p.SameUpToLines q) :
    p.outline = q.outline := by
  rw [← p.outline_mapLines fun _ => 0, ← q.outline_mapLines fun _ => 0]
  exact congrArg Program.outline h

end Scripting
